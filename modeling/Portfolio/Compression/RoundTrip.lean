import Portfolio.Compression.CompressRun
import Portfolio.Compression.Spelling

set_option autoImplicit false

namespace Portfolio.Compression

open Lib

section Matching

variable {window : Window} {new matchLen matchPos : Nat} {found : Nat → Prop}

structure Agrees (window : Window) (new : Nat) (found : Nat → Prop) (matchLen matchPos : Nat) : Prop where
  most : matchLen ≤ lookAheadSize
  same : matchLen ≠ 0 → found matchPos ∧
    ∀ k < matchLen, window (modWindow (new + k)) = window (modWindow (matchPos + k))

theorem compareFrom_agrees (window : Window) (x y i left : Nat) (delta : Int) :
    (compareFrom window x y i left delta).1 ≤ i + left ∧
      ∀ k, i ≤ k → k < (compareFrom window x y i left delta).1 →
        window (modWindow (x + k)) = window (modWindow (y + k)) := by
  induction left generalizing i delta with
  | zero => exact ⟨le_rfl, fun k from' upTo => absurd upTo (not_lt.mpr from')⟩
  | succ left ih =>
    rw [compareFrom]
    split
    · exact ⟨by dsimp only; omega, fun k from' upTo => absurd upTo (not_lt.mpr from')⟩
    · next equal =>
      obtain ⟨most, same⟩ := ih (i + 1) _
      refine ⟨most.trans (by omega), fun k from' upTo => ?_⟩
      rcases Nat.eq_or_lt_of_le from' with rfl | later
      · exact BitVec.eq_of_toNat_eq (by omega)
      · exact same k later upTo

theorem descend_agrees {tree : CompTree} {p testNode rounds : Nat} {t : BinaryTree Nat} {added : Added}
    (coded : Coded unused tree p testNode t) (used : testNode ≠ unused) (inTree : ∀ x ∈ items t, found x)
    (agrees : Agrees window new found matchLen matchPos)
    (ends : descend window new tree rounds testNode matchLen matchPos = some added) :
    Agrees window new found added.matchLen added.matchPos := by
  induction rounds generalizing p testNode t matchLen matchPos with
  | zero => cases ends
  | succ rounds ih =>
    cases t with
    | nil => exact absurd coded used
    | node a l r =>
      obtain ⟨rfl, -, -, codedL, codedR⟩ := coded
      simp only [items, List.mem_append, List.mem_cons] at inTree
      obtain ⟨most, same⟩ := compareFrom_agrees window new testNode 0 lookAheadSize 0
      rw [descend] at ends
      generalize compareFrom window new testNode 0 lookAheadSize 0 = compared at *
      obtain ⟨i, delta⟩ := compared
      dsimp only at most same ends
      -- the comparison that went furthest so far
      have better : Agrees window new found (if matchLen ≤ i then i else matchLen)
          (if matchLen ≤ i then testNode else matchPos) := by
        split
        · exact ⟨by omega, fun _ => ⟨inTree testNode (.inr (.inl rfl)), fun k => same k (Nat.zero_le _)⟩⟩
        · exact agrees
      generalize (if matchLen ≤ i then i else matchLen) = matchLen' at *
      generalize (if matchLen ≤ i then testNode else matchPos) = matchPos' at *
      split at ends
      · obtain rfl := Option.some.inj ends
        exact better
      split at ends
      · split at ends
        · obtain rfl := Option.some.inj ends
          exact better
        · next more => exact ih codedR more (fun x member => inTree x (.inr (.inr member))) better ends
      · split at ends
        · obtain rfl := Option.some.inj ends
          exact better
        · next more => exact ih codedL more (fun x member => inTree x (.inl member)) better ends

theorem Holding.agrees {tree : CompTree} {live : Set Nat} {currentPos gap back : Nat} {t : BinaryTree Nat}
    {added : Added} (holding : Holding window tree live currentPos gap back t)
    (ends : Compression.addString window tree currentPos matchPos = some added) :
    Agrees window currentPos (· ∈ items t) added.matchLen added.matchPos := by
  have none : ∀ matchPos, Agrees window currentPos (· ∈ items t) 0 matchPos :=
    fun _ => ⟨Nat.zero_le _, fun some => absurd rfl some⟩
  unfold Compression.addString at ends
  split at ends
  · obtain rfl := Option.some.inj ends
    exact none matchPos
  · have coded := holding.codes.coded
    have used : (tree treeRoot).rightChild ≠ unused := by
      intro empty
      have inhabited := holding.inhabited
      rw [coded.nil_iff.mp empty] at inhabited
      exact inhabited rfl
    exact descend_agrees coded used (fun x member => member) (none matchPos) ends

end Matching

section Histories

variable {c : Compressor}

theorem AllWhole.suffix {earlier later : List TreeStep} (whole : AllWhole later) (suffix : earlier <:+ later) :
    AllWhole earlier := by
  obtain ⟨front, rfl⟩ := suffix
  induction front with
  | nil => exact whole
  | cons step front ih => exact ih whole.2

theorem add_allWhole (whole : AllWhole c.history) : AllWhole c.add.history := by
  unfold Compressor.add
  split
  · refine ⟨fun node isDelete => ?_, whole⟩
    cases isDelete
  · exact whole

theorem add_window : c.add.window = c.window := by
  unfold Compressor.add
  split <;> rfl

theorem makeRoom_history : c.history <:+ c.makeRoom.history := by
  unfold Compressor.makeRoom
  dsimp only
  split
  · rw [← (putOut_same (c := c) lookAheadSize).2.2]
    exact delete_history (c := { c.putOut lookAheadSize with
      replaceCnt := (c.putOut lookAheadSize).replaceCnt - 1 }) _
  · exact delete_history (c := { c with replaceCnt := c.replaceCnt - 1 }) _

theorem newData_history (data : List Byte) : c.history <:+ (c.newData data).history := by
  induction data generalizing c with
  | nil => exact List.suffix_rfl
  | cons byte src ih =>
    rw [Compressor.newData]
    split
    · exact List.suffix_rfl
    · have accepted : c.history <:+ (c.accept byte).history := add_history (c := { c with
        window := Function.update c.window (modWindow (c.currentPos + lookAheadSize)) byte
        currentPos := modWindow (c.currentPos + 1) })
      dsimp only
      split
      · exact accepted
      · exact accepted.trans (makeRoom_history.trans ih)

theorem load_history (data : List Byte) : c.history <:+ (c.load data).history := by
  induction data generalizing c with
  | nil =>
    rw [Compressor.load]
    split
    · exact List.suffix_rfl
    · exact makeRoom_history.trans (newData_history [])
  | cons byte src ih =>
    rw [Compressor.load]
    split
    · exact ih (c := { c with
        window := Function.update c.window c.lookAhead.toNat byte, lookAhead := c.lookAhead + 1 })
    · exact makeRoom_history.trans (newData_history _)

theorem feed_history (data : List Byte) : c.history <:+ (c.feedCompressor data).history := by
  unfold Compressor.feedCompressor
  split
  · exact List.suffix_rfl
  split
  · exact List.suffix_rfl
  split
  · exact newData_history data
  · exact load_history data

theorem feeds_history (calls : List (List Byte)) :
    c.history <:+ (calls.foldl Compressor.feedCompressor c).history := by
  induction calls generalizing c with
  | nil => exact List.suffix_rfl
  | cons data rest ih => exact (feed_history data).trans ih

end Histories

def Shows (window : Window) (text : Nat → Byte) (low high : Nat) : Prop :=
  ∀ j, low ≤ j → j < high → window (modWindow (j + 1)) = text j

/-- What the compressor has put out spells the text up to `stop`, and it is at `a` itself. -/
structure Told (buffer : Nat → Byte) (text : Nat → Byte) (c : Compressor) (a stop : Nat) : Prop where
  current : c.currentPos = modWindow (a + 1)
  reached : ∀ x ∈ liveAfter c.history, behind c.currentPos x ≤ a
  tokens : ∃ tokens : List Token, c.outputStream = tokens.foldl OutputStream.writeToken (initOutputStream buffer) ∧
    (∀ token ∈ tokens, token.Written) ∧ Spells text 0 tokens stop

structure Matches (text : Nat → Byte) (c : Compressor) (a high : Nat) : Prop where
  most : c.matchLen ≤ lookAheadSize
  repeats : breakEven < c.matchLen → c.matchPos ≠ endOfStream ∧ ∃ back, 1 ≤ back ∧ back ≤ a ∧ back < windowSize ∧
    c.matchPos = modWindow (a - back + 1) ∧
    ∀ k < c.matchLen, a + k < high → text (a + k) = text (a + k - back)

structure Going (buffer : Nat → Byte) (text : Nat → Byte) (c : Compressor) (a stop gap back : Nat) : Prop where
  sound : Sound c gap back
  whole : AllWhole c.history
  told : Told buffer text c a stop

section Steps

variable {buffer text : Nat → Byte} {c : Compressor} {a stop gap back low high : Nat}

theorem Going.running (going : Going buffer text c a stop gap back) : c.hangs = false :=
  (going.sound.2 going.whole).1

theorem Told.token (told : Told buffer text c a stop) {c' : Compressor} {token : Token} {stop' : Nat}
    (written : token.Written) (tells : token.Tells text stop stop') (current : c'.currentPos = c.currentPos)
    (history : c'.history = c.history) (puts : c'.outputStream = c.outputStream.writeToken token) :
    Told buffer text c' a stop' := by
  obtain ⟨current', reached, tokens, stream, all, spells⟩ := told
  refine ⟨current.trans current', by rwa [history, current], tokens ++ [token], ?_, ?_, spells.snoc tells⟩
  · rw [puts, stream, List.foldl_append]
    rfl
  · exact List.forall_mem_append.mpr ⟨all, List.forall_mem_singleton.mpr written⟩

theorem Told.putOut {most : Nat} (told : Told buffer text c a a) (here : c.window c.currentPos = text a)
    (matches' : breakEven < most → Matches text c a high) (room : a + most ≤ high) :
    Told buffer text (c.putOut most) a (a + (c.putOut most).replaceCnt) ∧ 1 ≤ (c.putOut most).replaceCnt := by
  unfold Compressor.putOut
  have few : (if most < c.matchLen then most else c.matchLen) ≤ most ∧
      (if most < c.matchLen then most else c.matchLen) ≤ c.matchLen := by
    split <;> omega
  generalize (if most < c.matchLen then most else c.matchLen) = matchLen at *
  dsimp only
  by_cases short : matchLen ≤ breakEven
  · rw [if_pos short]
    exact ⟨told.token (show (Token.literal (c.window c.currentPos)).Written from trivial) ⟨here, rfl⟩ rfl rfl rfl, le_rfl⟩
  · rw [if_neg short]
    have even : breakEven = 2 := rfl
    obtain ⟨limit, repeats⟩ := matches' (by omega)
    obtain ⟨notEnd, back, some, inText, near, place, same⟩ := repeats (by omega)
    have inWindow : c.matchPos < windowSize := by
      rw [place]
      exact Nat.mod_lt _ (by decide)
    have tells : (Token.phrase c.matchPos matchLen).Tells text a (a + matchLen) :=
      ⟨⟨back, some, inText, near, place, fun k small => same k (by omega) (by omega)⟩, rfl⟩
    have written : (Token.phrase c.matchPos matchLen).Written :=
      ⟨notEnd, inWindow, Nat.lt_of_not_le short, few.2.trans limit⟩
    exact ⟨told.token written tells rfl rfl rfl, show 1 ≤ matchLen by omega⟩

theorem Told.delete (told : Told buffer text c a stop) (node : Nat) : Told buffer text (c.delete node) a stop := by
  unfold Compressor.delete
  split
  · exact ⟨told.current, fun x isLive => told.reached x isLive.1, told.tokens⟩
  · exact ⟨told.current, told.reached, told.tokens⟩

theorem Told.delete_allWhole (told : Told buffer text c a stop) (whole : AllWhole c.history)
    (early : a + 19 < windowSize) :
    AllWhole (c.delete (modWindow (c.currentPos + lookAheadSize))).history := by
  have node : modWindow (c.currentPos + lookAheadSize) = a + 19 := by
    rw [told.current, lookAheadSize_eq]
    simp only [modWindow_eq, windowSize_eq] at early ⊢
    omega
  unfold Compressor.delete
  rw [node]
  split
  · refine ⟨fun other isDelete => ?_, whole⟩
    obtain rfl := TreeOp.deleteString.inj isDelete
    rw [DeletesWhole, if_neg (show a + 19 ≠ unused from Nat.succ_ne_zero _)]
    intro isLive
    -- what is live lies no further back than the text goes, and this place does
    have near := told.reached _ isLive
    rw [told.current] at near
    simp only [behind, modWindow_eq, windowSize_eq] at near early
    omega
  · exact whole

theorem Told.advance (told : Told buffer text c a stop) (holding : ∃ t, Holding c.window c.tree
    (liveAfter c.history) c.currentPos 4077 back t) :
    modWindow (c.currentPos + 1) = modWindow (a + 1 + 1) ∧
      ∀ x ∈ liveAfter c.history, behind (modWindow (c.currentPos + 1)) x ≤ a + 1 := by
  obtain ⟨t, holding⟩ := holding
  refine ⟨?_, fun x isLive => ?_⟩
  · rw [told.current, modWindow_add]
  · rw [behind_succ holding.current (holding.inWindow x isLive) (holding.within x isLive)]
    exact Nat.succ_le_succ (told.reached x isLive)

theorem Going.add (going : Going buffer text c a stop 4078 back)
    (before : ∀ x ∈ liveAfter c.history, behind c.currentPos x ≠ 0)
    (shows' : Shows c.window text low high) (old : low ≤ a - 4078) :
    Told buffer text c.add a stop ∧ Matches text c.add a high := by
  obtain ⟨sound, whole, told⟩ := going
  obtain ⟨-, t, holding⟩ := sound.2 whole
  obtain ⟨added, -, outcome, -⟩ := holding.addString c.matchPos before
  obtain ⟨most, same⟩ := holding.agrees outcome
  have current := told.current
  unfold Compressor.add
  rw [outcome]
  refine ⟨⟨current, fun x isLive => ?_, told.tokens⟩, most, fun long => ?_⟩
  · have survives : x = c.currentPos ∨ x ∈ liveAfter c.history := by
      dsimp only [liveAfter, TreeStep.survivors] at isLive
      split at isLive
      · exact .inr isLive
      · exact isLive.imp_right And.left
    rcases survives with rfl | survives
    · dsimp only
      rw [behind_self]
      exact Nat.zero_le _
    · exact told.reached x survives
  · dsimp only at long ⊢
    obtain ⟨inTree, agrees⟩ := same (by omega)
    have isLive := (holding.mem _).mp inTree
    have inWindow := holding.inWindow _ isLive
    have within := holding.within _ isLive
    have reached := told.reached _ isLive
    have notHere := before _ isLive
    have place : added.matchPos = modWindow (a - behind c.currentPos added.matchPos + 1) := by
      rw [current] at reached within ⊢
      simp only [behind, modWindow_eq, windowSize_eq] at *
      omega
    refine ⟨holding.codes.coded.ne_unused inTree, behind c.currentPos added.matchPos, by omega, reached,
      lt_of_le_of_lt within (by decide), place, fun k small inText => ?_⟩
    generalize behind c.currentPos added.matchPos = back at *
    -- the strings are the same in the window, and the window shows the text on both sides
    have bytes := agrees k small
    have left : modWindow (c.currentPos + k) = modWindow (a + k + 1) := by
      rw [current, modWindow_add, Nat.add_right_comm]
    have right : modWindow (added.matchPos + k) = modWindow (a + k - back + 1) := by
      rw [place, modWindow_add, Nat.add_right_comm, Nat.sub_add_comm reached]
    rw [left, right, shows' _ (by omega) inText, shows' _ (by omega) (by omega)] at bytes
    exact bytes

theorem Going.delete (going : Going buffer text c a stop 4078 back) (near : back < 4078)
    (whole : AllWhole (c.delete (modWindow (c.currentPos + lookAheadSize))).history) :
    Going buffer text (c.delete (modWindow (c.currentPos + lookAheadSize))) a stop 4077 back :=
  ⟨going.sound.delete near, whole, going.told.delete _⟩

theorem delete_window (node : Nat) : (c.delete node).window = c.window := by
  unfold Compressor.delete
  split <;> rfl

def Safe (history : List TreeStep) (a : Nat) : Prop := AllWhole history ∨ a + 19 < windowSize

/-- A token is put out where none is under way, and what is left of it is one byte shorter. -/
theorem Going.put (most upTo : Nat) (going : Going buffer text c a (a + c.replaceCnt) 4078 back)
    (here : c.replaceCnt = 0 → c.window c.currentPos = text a)
    (matches' : c.replaceCnt = 0 → breakEven < most → Matches text c a upTo) (room : c.replaceCnt = 0 → a + most ≤ upTo) :
    ∃ c', c' = (if c.replaceCnt = 0 then c.putOut most else c) ∧ 1 ≤ c'.replaceCnt ∧
      Going buffer text { c' with replaceCnt := c'.replaceCnt - 1 } a (a + c'.replaceCnt) 4078 back ∧
      c'.window = c.window ∧ c'.lookAhead = c.lookAhead ∧ c'.replaceCnt ≤ max c.replaceCnt (max most 1) := by
  obtain ⟨sound, whole, told⟩ := going
  refine ⟨_, rfl, ?_⟩
  split
  · next none =>
    rw [none] at told
    obtain ⟨told', some⟩ := told.putOut (here none) (matches' none) (room none)
    obtain ⟨window, -, history⟩ := putOut_same (c := c) most
    obtain ⟨ahead, -, count⟩ := putOut_frame (c := c) most
    have sound' := sound.putOut most
    exact ⟨some, ⟨⟨sound'.1, sound'.2⟩, history ▸ whole, told'.current, told'.reached, told'.tokens⟩, window, ahead,
      by omega⟩
  · next some =>
    exact ⟨Nat.pos_of_ne_zero some, ⟨⟨sound.1, sound.2⟩, whole, told.current, told.reached, told.tokens⟩, rfl, rfl,
      le_max_left _ _⟩

theorem Going.makeRoom (going : Going buffer text c a (a + c.replaceCnt) 4078 back) (near : back < 4078)
    (here : c.window c.currentPos = text a) (matches' : c.replaceCnt = 0 → Matches text c a (a + lookAheadSize))
    (safe : Safe c.makeRoom.history a) :
    Going buffer text c.makeRoom a (a + 1 + c.makeRoom.replaceCnt) 4077 back ∧ c.makeRoom.window = c.window := by
  obtain ⟨c', put, some, going', window, -⟩ := going.put lookAheadSize _ (fun _ => here)
    (fun none _ => matches' none) (fun _ => le_rfl)
  unfold Compressor.makeRoom at safe ⊢
  rw [← put] at safe ⊢
  have deleted := going'.delete near (safe.elim id fun early => going'.told.delete_allWhole going'.whole early)
  dsimp only
  rw [(delete_frame _).2.1, delete_window, show a + 1 + (c'.replaceCnt - 1) = a + c'.replaceCnt by omega]
  exact ⟨deleted, window⟩

theorem Going.accept {byte : Byte} (going : Going buffer text c a stop 4077 (latest c.currentPos))
    (shows' : Shows c.window text (a - 4078) (a + lookAheadSize)) (reads : byte = text (a + lookAheadSize)) :
    Going buffer text (c.accept byte) (a + 1) stop 4078 (latest (c.accept byte).currentPos) ∧
      Shows (c.accept byte).window text (a + 1 - 4078) (a + 1 + lookAheadSize) ∧
      Matches text (c.accept byte) (a + 1) (a + 1 + lookAheadSize) := by
  obtain ⟨sound, whole, told⟩ := going
  have slot : modWindow (c.currentPos + lookAheadSize) = modWindow (a + lookAheadSize + 1) := by
    rw [told.current, modWindow_add, Nat.add_right_comm]
  obtain ⟨current, reached⟩ := told.advance ((sound.2 whole).2)
  have size := lookAheadSize_eq
  have shows'' : Shows (Function.update c.window (modWindow (c.currentPos + lookAheadSize)) byte) text
      (a + 1 - 4078) (a + 1 + lookAheadSize) := by
    intro j old inText
    rw [slot]
    by_cases last : j = a + lookAheadSize
    · rw [last, Function.update_self]
      exact reads
    · have other : modWindow (j + 1) ≠ modWindow (a + lookAheadSize + 1) := by
        rw [modWindow_eq, modWindow_eq]
        omega
      have within : a - 4078 ≤ j ∧ j < a + lookAheadSize := by omega
      rw [Function.update_of_ne other]
      exact shows' j within.1 within.2
  have fed := sound.feed byte
  unfold Compressor.accept at fed ⊢
  generalize moved : { c with
    window := Function.update c.window (modWindow (c.currentPos + lookAheadSize)) byte
    currentPos := modWindow (c.currentPos + 1) } = c' at *
  have going' : Going buffer text c' (a + 1) stop 4078 (latest c.currentPos + 1) := by
    subst moved
    obtain ⟨running, t, holding⟩ := sound.2 whole
    exact ⟨⟨sound.1, fun _ => ⟨running, t, holding.advance byte⟩⟩, whole, current, reached, told.tokens⟩
  have before : ∀ x ∈ liveAfter c'.history, behind c'.currentPos x ≠ 0 := by
    subst moved
    exact sound.passed whole
  have window : c'.window = Function.update c.window (modWindow (c.currentPos + lookAheadSize)) byte := by
    rw [← moved]
  rw [← window] at shows''
  obtain ⟨told', matches'⟩ := going'.add before shows'' le_rfl
  exact ⟨⟨fed, add_allWhole going'.whole, told'⟩, by rwa [add_window], matches'⟩

theorem Going.goOn (going : Going buffer text c a stop 4077 back) (shows' : Shows c.window text low high)
    (old : low ≤ a + 1 - 4078) :
    Going buffer text c.goOn (a + 1) stop 4078 (back + 1) ∧ c.goOn.window = c.window ∧
      (c.lookAhead ≠ 0 → Matches text c.goOn (a + 1) high) := by
  obtain ⟨sound, whole, told⟩ := going
  obtain ⟨current, reached⟩ := told.advance ((sound.2 whole).2)
  have sound' := sound.goOn
  unfold Compressor.goOn at sound' ⊢
  generalize moved : { c with currentPos := modWindow (c.currentPos + 1) } = c' at *
  have going' : Going buffer text c' (a + 1) stop 4078 (back + 1) := by
    subst moved
    obtain ⟨running, t, holding⟩ := sound.2 whole
    exact ⟨⟨sound.1, fun _ => ⟨running, t, holding.advance'⟩⟩, whole, current, reached, told.tokens⟩
  have before : ∀ x ∈ liveAfter c'.history, behind c'.currentPos x ≠ 0 := by
    subst moved
    exact sound.passed whole
  have window : c'.window = c.window := by rw [← moved]
  have ahead : c'.lookAhead = c.lookAhead := by rw [← moved]
  dsimp only at sound' ⊢
  by_cases atEnd : c'.lookAhead = 0
  · rw [if_neg (not_not.mpr atEnd)]
    exact ⟨going', window, fun more => absurd (ahead ▸ atEnd) more⟩
  · rw [if_pos atEnd] at sound' ⊢
    rw [← window] at shows'
    obtain ⟨told', matches'⟩ := going'.add before shows' old
    exact ⟨⟨sound', add_allWhole going'.whole, told'⟩, add_window.trans window, fun _ => matches'⟩

end Steps

def Continues (text : Nat → Byte) (n : Nat) (data : List Byte) : Prop :=
  ∀ (j : Nat) (byte : Byte), data[j]? = some byte → byte = text (n + j)

theorem Continues.tail {text : Nat → Byte} {n : Nat} {byte : Byte} {src : List Byte}
    (continues : Continues text n (byte :: src)) : Continues text (n + 1) src := by
  intro j byte' there
  have later := continues (j + 1) byte' there
  rwa [← Nat.add_assoc, Nat.add_right_comm] at later

section Runs

variable {buffer text : Nat → Byte} {c : Compressor} {a n : Nat}

structure Second (buffer text : Nat → Byte) (c : Compressor) (a : Nat) : Prop where
  going : Going buffer text c a (a + 1 + c.replaceCnt) 4077 (latest c.currentPos)
  shows' : Shows c.window text (a - 4078) (a + lookAheadSize)
  short : c.replaceCnt ≤ lookAheadSize

theorem Second.newData (data : List Byte) (second : Second buffer text c a)
    (continues : Continues text (a + lookAheadSize) data) (safe : Safe (c.newData data).history (a + data.length)) :
    Second buffer text (c.newData data) (a + data.length) ∧ (c.newData data).secondPass = true ∧
      (c.newData data).lookAhead = lookAheadSize := by
  induction data generalizing c a with
  | nil =>
    obtain ⟨⟨sound, whole, told⟩, shows', short⟩ := second
    exact ⟨⟨⟨sound, whole, told.current, told.reached, told.tokens⟩, shows', short⟩, rfl, rfl⟩
  | cons byte src ih =>
    obtain ⟨accepted, shows', matches'⟩ := second.going.accept second.shows' (continues 0 byte rfl)
    rw [newData_cons second.going.running accepted.running] at safe ⊢
    have count : (c.accept byte).replaceCnt = c.replaceCnt := add_frame.2.1
    have here : (c.accept byte).window (c.accept byte).currentPos = text (a + 1) := by
      rw [accepted.told.current]
      exact shows' (a + 1) (Nat.sub_le ..) (Nat.lt_add_of_pos_right (by decide))
    have short := makeRoom_frame.2 (count ▸ second.short)
    rw [← count] at accepted
    obtain ⟨made, window⟩ := accepted.makeRoom ((latest_le _).trans_lt (by decide)) here (fun _ => matches')
      (safe.imp (fun all => all.suffix (newData_history src)) fun early => by rw [List.length_cons] at early; omega)
    rw [← makeRoom_frame.1] at made
    rw [← window] at shows'
    have later := continues.tail
    rw [Nat.add_right_comm] at later
    rw [List.length_cons, Nat.add_comm src.length 1, ← Nat.add_assoc] at safe ⊢
    exact ih ⟨made, shows', short⟩ later safe

structure Loading (buffer text : Nat → Byte) (c : Compressor) (n : Nat) : Prop where
  filling : Filling c
  running : c.hangs = false
  read : c.lookAhead = n + 1
  shows' : Shows c.window text 0 n
  noMatch : c.matchLen = 0
  fresh : c.outputStream = initOutputStream buffer

def Fed (buffer text : Nat → Byte) (c : Compressor) (n : Nat) : Prop :=
  Loading buffer text c n ∨ ∃ a, n = a + lookAheadSize ∧ Second buffer text c a ∧ c.secondPass = true ∧
    c.lookAhead = lookAheadSize

theorem Loading.going (loading : Loading buffer text c n) :
    Going buffer text c 0 (0 + c.replaceCnt) 4078 (latest c.currentPos) := by
  obtain ⟨-, history, -, current, count, -⟩ := loading.filling
  refine ⟨(loading.filling.sound loading.running).mono (by decide) le_rfl, by rw [history]; trivial, current, ?_, ?_⟩
  · rw [history, current]
    rintro x rfl
    decide
  · rw [count, loading.fresh]
    exact ⟨[], rfl, fun token none => absurd none List.not_mem_nil, rfl⟩

theorem Loading.full (loading : Loading buffer text c n) (full : ¬ c.lookAhead ≤ lookAheadSize) : n = lookAheadSize := by
  have read := loading.read
  have most := loading.filling.2.2.2.2.2.2
  omega

theorem Loading.matches' (loading : Loading buffer text c n) (high : Nat) : Matches text c 0 high := by
  refine ⟨by rw [loading.noMatch]; exact Nat.zero_le _, fun long => ?_⟩
  rw [loading.noMatch] at long
  exact absurd long (by decide)

theorem Loading.begin (loading : Loading buffer text c lookAheadSize) (data : List Byte)
    (continues : Continues text lookAheadSize data) (safe : Safe (c.makeRoom.newData data).history data.length) :
    Fed buffer text (c.makeRoom.newData data) (lookAheadSize + data.length) := by
  have current : c.currentPos = modWindow (0 + 1) := loading.filling.2.2.2.1
  have here : c.window c.currentPos = text 0 := by
    rw [current]
    exact loading.shows' 0 le_rfl (by decide)
  obtain ⟨made, window⟩ := loading.going.makeRoom ((latest_le _).trans_lt (by decide)) here
    (fun _ => loading.matches' _) (.inr (by decide))
  rw [← makeRoom_frame.1] at made
  have short := (makeRoom_frame (c := c)).2 (by rw [loading.filling.2.2.2.2.1]; exact Nat.zero_le _)
  have second : Second buffer text c.makeRoom 0 := ⟨made, by rw [window, Nat.zero_add]; exact loading.shows', short⟩
  rw [← Nat.zero_add data.length] at safe
  rw [← Nat.zero_add lookAheadSize] at continues
  have fed := second.newData data continues safe
  exact .inr ⟨0 + data.length, by omega, fed⟩

theorem Loading.load (data : List Byte) (loading : Loading buffer text c n) (continues : Continues text n data)
    (safe : Safe (c.load data).history (n + data.length - lookAheadSize)) :
    Fed buffer text (c.load data) (n + data.length) := by
  induction data generalizing c n with
  | nil =>
    rw [Compressor.load] at safe ⊢
    by_cases more : c.lookAhead ≤ lookAheadSize
    · rw [if_pos more]
      exact .inl loading
    · rw [if_neg more] at safe ⊢
      obtain rfl := loading.full more
      exact loading.begin [] continues (by rwa [Nat.add_sub_cancel_left] at safe)
  | cons byte src ih =>
    rw [Compressor.load] at safe ⊢
    by_cases more : c.lookAhead ≤ lookAheadSize
    · rw [if_pos more] at safe ⊢
      have read := loading.read
      have slot : c.lookAhead.toNat = modWindow (n + 1) := by
        have size := lookAheadSize_eq
        rw [modWindow_eq]
        omega
      have shows' : Shows (Function.update c.window c.lookAhead.toNat byte) text 0 (n + 1) := by
        intro j _ inText
        rw [slot]
        by_cases last : j = n
        · rw [last, Function.update_self]
          exact continues 0 byte rfl
        · have size := lookAheadSize_eq
          have other : modWindow (j + 1) ≠ modWindow (n + 1) := by
            rw [modWindow_eq, modWindow_eq]
            omega
          rw [Function.update_of_ne other]
          exact loading.shows' j (Nat.zero_le j) (by omega)
      obtain ⟨⟨first, history, treeIs, current, none, least, -⟩, running, -, -, noMatch, fresh⟩ := loading
      rw [List.length_cons, Nat.add_comm src.length 1, ← Nat.add_assoc] at safe ⊢
      refine ih ⟨⟨first, history, treeIs, current, none, ?_, ?_⟩, running, ?_, shows', noMatch, fresh⟩ continues.tail safe
      · dsimp only
        omega
      · dsimp only
        omega
      · dsimp only
        omega
    · rw [if_neg more] at safe ⊢
      obtain rfl := loading.full more
      exact loading.begin (byte :: src) continues (by rwa [Nat.add_sub_cancel_left] at safe)

theorem Fed.feed (fed : Fed buffer text c n) (data : List Byte) (continues : Continues text n data)
    (safe : Safe (c.feedCompressor data).history (n + data.length - lookAheadSize)) :
    Fed buffer text (c.feedCompressor data) (n + data.length) := by
  have running : c.hangs = false := by
    obtain loading | ⟨a, -, second, -⟩ := fed
    · exact loading.running
    · exact second.going.running
  unfold Compressor.feedCompressor at safe ⊢
  rw [running, if_neg Bool.false_ne_true] at safe ⊢
  by_cases none : data = []
  · rw [if_pos none, none]
    exact fed
  rw [if_neg none] at safe ⊢
  obtain loading | ⟨a, rfl, second, isSecond, -⟩ := fed
  · rw [loading.filling.1, if_neg Bool.false_ne_true] at safe ⊢
    exact loading.load data continues safe
  · rw [isSecond, if_pos rfl] at safe ⊢
    rw [Nat.add_right_comm, Nat.add_sub_cancel] at safe
    exact .inr ⟨a + data.length, Nat.add_right_comm .., second.newData data continues safe⟩

theorem Fed.feeds (calls : List (List Byte)) (fed : Fed buffer text c n) (continues : Continues text n calls.flatten)
    (safe : Safe (calls.foldl Compressor.feedCompressor c).history (n + calls.flatten.length - lookAheadSize)) :
    Fed buffer text (calls.foldl Compressor.feedCompressor c) (n + calls.flatten.length) := by
  induction calls generalizing c n with
  | nil => exact fed
  | cons data rest ih =>
    rw [List.flatten_cons, List.length_append, ← Nat.add_assoc] at safe ⊢
    rw [List.flatten_cons] at continues
    have now : Continues text n data := fun j byte there =>
      continues j byte (by rw [List.getElem?_append_left (List.getElem?_eq_some_iff.mp there).1]; exact there)
    have later : Continues text (n + data.length) rest.flatten := by
      intro j byte there
      have later := continues (data.length + j) byte (by
        rwa [List.getElem?_append_right (Nat.le_add_right ..), Nat.add_sub_cancel_left])
      rwa [← Nat.add_assoc] at later
    exact ih (fed.feed data now (safe.imp (fun all => all.suffix (feeds_history rest)) fun early => by omega)) later safe

theorem flushed_history (rounds : Nat) :
    c.history <:+ (Compressor.flushLoop rounds { c with lookAhead := c.lookAhead - 1 }.goOn).history :=
  (goOn_history (c := { c with lookAhead := c.lookAhead - 1 })).trans (flushLoop_history rounds)

theorem Going.flushLoop {low : Nat} (rounds back : Nat) (going : Going buffer text c a (a + c.replaceCnt) 4078 back)
    (shows' : Shows c.window text low (n + 2)) (old : low ≤ a - 4078) (left : (a : Int) + c.lookAhead = n + 1)
    (count : c.replaceCnt ≤ c.lookAhead + 1) (enough : c.lookAhead + 1 < rounds) (near : back + rounds < 4078)
    (matches' : 0 < c.lookAhead → Matches text c a (n + 2))
    (safe : Safe (Compressor.flushLoop rounds c).history (n + 1)) :
    ∃ back', Going buffer text (Compressor.flushLoop rounds c) (n + 2) (n + 2) 4078 back' := by
  induction rounds generalizing c a back with
  | zero => omega
  | succ rounds ih =>
    rw [Compressor.flushLoop, going.running, if_neg Bool.false_ne_true] at safe ⊢
    by_cases done : c.replaceCnt = 0 ∧ c.lookAhead < 0
    · rw [if_pos done]
      have here : a = n + 2 := by omega
      rw [here, done.1] at going
      exact ⟨back, going⟩
    rw [if_neg done] at safe ⊢
    -- the loop runs twice more than there is data, up to `n + 2`
    have inText : a < n + 2 := by omega
    obtain ⟨c', put, some, going', window, ahead, count'⟩ := going.put c.lookAhead.toNat (n + 2)
      (fun _ => by
        rw [going.told.current]
        exact shows' a (old.trans (Nat.sub_le ..)) inText)
      (fun _ more => matches' (by unfold breakEven at more; omega)) (fun _ => by omega)
    rw [← put] at safe ⊢
    dsimp only at safe ⊢
    obtain ⟨ahead2, count2, -⟩ := delete_frame (c := { c' with replaceCnt := c'.replaceCnt - 1 })
      (modWindow (c'.currentPos + lookAheadSize))
    have window2 := delete_window (c := { c' with replaceCnt := c'.replaceCnt - 1 })
      (modWindow (c'.currentPos + lookAheadSize))
    have kept : AllWhole (Compressor.delete { c' with replaceCnt := c'.replaceCnt - 1 }
        (modWindow (c'.currentPos + lookAheadSize))).history := by
      obtain all | early := safe
      · split at all
        · exact all
        · exact all.suffix (flushed_history rounds)
      · exact going'.told.delete_allWhole going'.whole (by omega)
    have deleted := going'.delete (by omega) kept
    generalize Compressor.delete { c' with replaceCnt := c'.replaceCnt - 1 } _ = c2 at *
    rw [if_neg (by rw [deleted.running]; exact Bool.false_ne_true)] at safe ⊢
    dsimp only at ahead2 count2 window2
    have going2 : Going buffer text { c2 with lookAhead := c2.lookAhead - 1 } a (a + c'.replaceCnt) 4077 back :=
      ⟨deleted.sound, deleted.whole, deleted.told.current, deleted.told.reached, deleted.told.tokens⟩
    rw [← window, ← window2] at shows'
    have old' : low ≤ a + 1 - 4078 := old.trans (Nat.sub_le_sub_right (Nat.le_succ a) 4078)
    obtain ⟨moved, window3, matches3⟩ := going2.goOn shows' old'
    obtain ⟨ahead3, count3⟩ := goOn_frame (c := { c2 with lookAhead := c2.lookAhead - 1 })
    generalize Compressor.goOn { c2 with lookAhead := c2.lookAhead - 1 } = c3 at *
    dsimp only at ahead3 count3 window3 matches3
    rw [show a + c'.replaceCnt = a + 1 + c3.replaceCnt by omega] at moved
    rw [← window3] at shows'
    refine ih (back + 1) moved shows' (by omega) (by omega) (by omega) (by omega) (by omega) (fun more => ?_) safe
    exact matches3 (by omega)

theorem Fed.flush (fed : Fed buffer text c n)
    (behind' : ∀ j, n ≤ j → j < n + 2 → text j = c.window (modWindow (j + 1)))
    (safe : Safe c.flushCompressor.history (n + 1)) :
    ∃ back, Going buffer text c.flushCompressor (n + 2) (n + 2) 4078 back := by
  have size := lookAheadSize_eq
  have longer : ∀ {low}, Shows c.window text low n → Shows c.window text low (n + 2) := by
    intro low shows' j from' inText
    by_cases before : j < n
    · exact shows' j from' before
    · exact (behind' j (by omega) inText).symm
  unfold Compressor.flushCompressor at safe ⊢
  obtain loading | ⟨a, rfl, second, isSecond, ahead⟩ := fed
  · rw [if_neg (by rw [loading.running]; exact Bool.false_ne_true),
      if_neg (by rw [loading.filling.1]; exact Bool.false_ne_true)] at safe ⊢
    have going := loading.going
    have none : c.replaceCnt = 0 := loading.filling.2.2.2.2.1
    have read := loading.read
    have most := loading.filling.2.2.2.2.2.2
    have soon := latest_le c.currentPos
    have going' : Going buffer text { c with replaceCnt := 0 } 0 (0 + 0) 4078 (latest c.currentPos) :=
      ⟨going.sound, going.whole, going.told.current, going.told.reached, none ▸ going.told.tokens⟩
    have matches' := loading.matches' (n + 2)
    refine going'.flushLoop _ _ (longer loading.shows') (Nat.zero_le _) ?_ ?_ ?_ ?_
      (fun _ => ⟨matches'.most, matches'.repeats⟩) safe
    · dsimp only
      omega
    · dsimp only
      omega
    · dsimp only
      omega
    · omega
  · rw [second.going.running, if_neg Bool.false_ne_true, isSecond, if_pos rfl] at safe ⊢
    obtain ⟨moved, window, matches'⟩ := second.going.goOn (longer second.shows') (by omega)
    obtain ⟨ahead', count⟩ := goOn_frame (c := c)
    have short := second.short
    have soon := latest_le c.currentPos
    have shows' := longer second.shows'
    rw [← count] at moved
    rw [← window] at shows'
    exact moved.flushLoop _ _ shows' (by omega) (by omega) (by omega) (by omega) (by omega)
      (fun more => matches' (by omega)) safe

theorem map_textWord (words : List Word) (continues : Continues text 0 (words.flatMap wordBytes)) :
    (List.range words.length).map (textWord text) = words := by
  induction words generalizing text with
  | nil => rfl
  | cons word rest ih =>
    have first : textWord text 0 = word := by
      rw [← pack_wordBytes word, wordBytes, continues 0 _ rfl, continues 1 _ rfl, continues 2 _ rfl, continues 3 _ rfl]
      rfl
    have later : Continues (fun j => text (j + 4)) 0 (rest.flatMap wordBytes) := by
      intro j byte there
      have later := continues (j + 4) byte there
      rwa [Nat.zero_add] at later ⊢
    rw [List.length_cons, List.range_succ_eq_map, List.map_cons, List.map_map, first]
    have shifted : textWord text ∘ Nat.succ = textWord fun j => text (j + 4) := by
      funext n
      simp only [Function.comp_apply, textWord, Nat.succ_eq_add_one, Nat.mul_add, Nat.mul_one, Nat.add_right_comm]
    rw [shifted, ih later]

end Runs

theorem compression_round_trip (window : Window) (buffer : Nat → Byte) (memory : Locals) (calls : List (List Word))
    (chunks : List Chunk)
    (whole : AllWhole (compressed window buffer (calls.map fun words => words.flatMap wordBytes)).history ∨
      calls.flatten.length ≤ 1018)
    (split : chunks.flatMap Chunk.words =
      (compressed window buffer (calls.map fun words => words.flatMap wordBytes)).outputStream.words) :
    (compressed window buffer (calls.map fun words => words.flatMap wordBytes)).hangs = false ∧
      (compressed window buffer (calls.map fun words => words.flatMap wordBytes)).outputStream.overflown = false ∧
      decompressed memory chunks = (calls.flatten, none) := by
  generalize isData : (calls.map fun words => words.flatMap wordBytes) = data at *
  have bytes : data.flatten = calls.flatten.flatMap wordBytes := by
    rw [← isData, ← List.flatMap_def, ← List.flatMap_assoc, List.flatMap_id']
  have count : data.flatten.length = 4 * calls.flatten.length := by
    rw [bytes, length_flatMap_wordBytes]
  let fed := data.foldl Compressor.feedCompressor (createCompressor window buffer)
  -- behind the input the text is what the window happens to hold, since the flush reads on for two bytes
  let text : Nat → Byte := fun j => data.flatten.getD j (fed.window (modWindow (j + 1)))
  have safe : Safe fed.flushCompressor.history (data.flatten.length + 1) := by
    refine whole.imp id fun short => ?_
    rw [count, windowSize_eq]
    omega
  have continues : Continues text 0 data.flatten := by
    intro j byte there
    rw [Nat.zero_add]
    exact (List.getD_eq_getElem?_getD ..).trans (by rw [there]; rfl) |>.symm
  have loading : Loading buffer text (createCompressor window buffer) 0 :=
    ⟨⟨rfl, rfl, rfl, rfl, rfl, (by decide : (0 : Int) ≤ 1), (by decide : (1 : Int) ≤ lookAheadSize + 1)⟩, rfl, rfl,
      fun j _ none => absurd none (Nat.not_lt_zero j), rfl, rfl⟩
  have fedAll : Fed buffer text fed (0 + data.flatten.length) :=
    Fed.feeds data (.inl loading) continues (safe.imp (fun all => all.suffix flush_history) fun early => by omega)
  rw [Nat.zero_add] at fedAll
  have behind' : ∀ j, data.flatten.length ≤ j → j < data.flatten.length + 2 → text j = fed.window (modWindow (j + 1)) :=
    fun j from' _ => by
      show data.flatten.getD j _ = _
      rw [List.getD_eq_getElem?_getD, List.getElem?_eq_none from', Option.getD_none]
  obtain ⟨back, going⟩ := fedAll.flush behind' safe
  obtain ⟨tokens, stream, written, spells⟩ := going.told.tokens
  have put : (compressed window buffer data).outputStream = writeStream buffer tokens := by
    show (fed.flushCompressor.outputStream.writeToken .endOfStream).cleanupOutputStream = _
    rw [stream]
    rfl
  rw [put] at split ⊢
  rw [count] at spells
  refine ⟨going.running, (stream_bytes buffer tokens written).1, ?_⟩
  rw [decompressed_text memory buffer written spells split, map_textWord _ (bytes ▸ continues)]

theorem compression_round_trip_sample :
    decompressed ⟨fun _ => 0, 0, 0, 0, .controlByte, 0, 0, 0⟩
      [⟨[0xF6414243], by decide⟩, ⟨[0x44001100, 0], by decide⟩] = ([0x41424344, 0x41424344], none) :=
  (compression_round_trip (fun _ => 0) (fun _ => 0) _ [[0x41424344], [0x41424344]] _ (.inr (by decide))
    (by decide +kernel)).2.2

end Portfolio.Compression
