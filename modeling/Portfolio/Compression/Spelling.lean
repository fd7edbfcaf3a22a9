import Portfolio.Compression.DecompressChunks
import Portfolio.Compression.TokenStream

set_option autoImplicit false

namespace Portfolio.Compression

open Lib

/-- What a token tells of the text from `i` to `j`. The byte `i` of a text is at `i + 1` in the window. -/
def Token.Tells (text : Nat → Byte) (i j : Nat) : Token → Prop
  | .literal byte => byte = text i ∧ j = i + 1
  | .phrase matchPos matchLen =>
    (∃ back, 1 ≤ back ∧ back ≤ i ∧ back < windowSize ∧ matchPos = modWindow (i - back + 1) ∧
      ∀ k < matchLen, text (i + k) = text (i + k - back)) ∧ j = i + matchLen
  | .endOfStream => j = i

def Spells (text : Nat → Byte) : Nat → List Token → Nat → Prop
  | i, [], j => j = i
  | i, token :: tokens, j => ∃ k, token.Tells text i k ∧ Spells text k tokens j

section Texts

variable {text : Nat → Byte} {i j : Nat}

theorem spells_append {first second : List Token} :
    Spells text i (first ++ second) j ↔ ∃ k, Spells text i first k ∧ Spells text k second j := by
  induction first generalizing i with
  | nil => simp [Spells]
  | cons token rest ih =>
    simp only [List.cons_append, Spells, ih]
    constructor
    · rintro ⟨k, tells, m, spells, later⟩
      exact ⟨m, ⟨k, tells, spells⟩, later⟩
    · rintro ⟨m, ⟨k, tells, spells⟩, later⟩
      exact ⟨k, tells, m, spells, later⟩

theorem Spells.snoc {tokens : List Token} {token : Token} {k : Nat} (spells : Spells text i tokens j)
    (tells : token.Tells text j k) : Spells text i (tokens ++ [token]) k :=
  spells_append.mpr ⟨j, spells, k, tells, rfl⟩

def pack (bytes : List Byte) : Word := bytes.foldl (fun word byte => word <<< 8 ||| byte.zeroExtend 32) 0

def textWord (text : Nat → Byte) (n : Nat) : Word := pack ((List.range 4).map fun k => text (4 * n + k))

theorem pack_wordBytes (word : Word) : pack (wordBytes word) = word := by
  simp only [pack, wordBytes, List.foldl_cons, List.foldl_nil]
  ext n small
  simp only [BitVec.getElem_or, BitVec.getElem_shiftLeft, BitVec.getElem_setWidth, BitVec.getLsbD_extractLsb']
  rcases (by omega : n < 8 ∨ 8 ≤ n ∧ n < 16 ∨ 16 ≤ n ∧ n < 24 ∨ 24 ≤ n) with one | two | three | four <;>
    grind

theorem modWindow_eq (a : Nat) : modWindow a = a % 4096 := rfl

theorem modWindow_add (a k : Nat) : modWindow (modWindow a + k) = modWindow (a + k) := Nat.mod_add_mod ..

end Texts

/-- The text of the tokens that have been read, in the window, in the words that are put out and in the
one that is not yet. -/
structure Spelled (l : Locals) (words : List Word) (text : Nat → Byte) (i : Nat) : Prop where
  pos : l.pos = modWindow (i + 1)
  window : ∀ j < i, i ≤ j + windowSize → l.window (modWindow (j + 1)) = text j
  packed : ∃ full, i + l.bytesLeft = 4 * full + 4 ∧ l.bytesLeft ≤ 4 ∧
    words = (List.range full).map (textWord text) ∧
    l.wordBuffer = pack ((List.range (4 - l.bytesLeft)).map fun k => text (4 * full + k))

section Reading

variable {l : Locals} {words : List Word} {text : Nat → Byte} {i j : Nat}

theorem create_spelled (memory : Locals) (text : Nat → Byte) :
    Spelled (createDecompressor memory).vars [] text 0 where
  pos := rfl
  window j none := absurd none (Nat.not_lt_zero j)
  packed := ⟨0, rfl, le_rfl, rfl, rfl⟩

theorem Spelled.emit (spelled : Spelled l words text i) :
    Spelled (l.emit (text i)).1 (words ++ (l.emit (text i)).2) text (i + 1) := by
  obtain ⟨pos, window, full, count, most, put, buffer⟩ := spelled
  have size : windowSize = 4096 := rfl
  have window' : ∀ j < i + 1, i + 1 ≤ j + windowSize →
      Function.update l.window l.pos (text i) (modWindow (j + 1)) = text j := by
    intro j before near
    rw [pos]
    by_cases last : j = i
    · subst last
      exact Function.update_self ..
    · rw [Function.update_of_ne (by rw [modWindow_eq, modWindow_eq]; omega)]
      exact window j (by omega) (by omega)
  have pos' : modWindow (l.pos + 1) = modWindow (i + 1 + 1) := by
    rw [pos, modWindow_add]
  unfold Locals.emit Locals.outputByte
  by_cases whole : l.bytesLeft = 0
  · rw [if_pos whole]
    refine ⟨pos', window', full + 1, by dsimp only; omega, show 3 ≤ 4 by decide, ?_, ?_⟩
    · rw [put, List.range_succ, List.map_append, List.map_singleton, textWord, buffer, whole]
    · have here : 4 * (full + 1) + 0 = i := by omega
      show _ = pack [text (4 * (full + 1) + 0)]
      rw [here]
      simp [pack]
  · rw [if_neg whole]
    refine ⟨pos', window', full, by dsimp only; omega, by dsimp only; omega, by rw [put, List.append_nil], ?_⟩
    have longer : 4 - (l.bytesLeft - 1) = 4 - l.bytesLeft + 1 := by omega
    have here : 4 * full + (4 - l.bytesLeft) = i := by omega
    dsimp only
    rw [longer, List.range_succ, List.map_append, List.map_singleton, here, buffer]
    simp only [pack, List.foldl_append, List.foldl_cons, List.foldl_nil]

theorem Spelled.copyMatch {back p count : Nat} (spelled : Spelled l words text i) (some : 1 ≤ back)
    (inText : back ≤ i) (near : back < windowSize) (place : modWindow p = modWindow (i - back + 1))
    (same : ∀ k < count, text (i + k) = text (i + k - back)) :
    Spelled (l.copyMatch p count).1 (words ++ (l.copyMatch p count).2) text (i + count) := by
  induction count generalizing l words i p with
  | zero =>
    rw [Locals.copyMatch, List.append_nil]
    exact spelled
  | succ count ih =>
    have byte : l.window (modWindow p) = text i := by
      rw [place, spelled.window _ (by omega) (by omega)]
      exact (same 0 (Nat.succ_pos _)).symm
    have next : modWindow (p + 1) = modWindow (i + 1 - back + 1) := by
      rw [← modWindow_add, place, modWindow_add, Nat.sub_add_comm inText]
    rw [Locals.copyMatch, byte, ← List.append_assoc, ← Nat.add_assoc, Nat.add_right_comm]
    refine ih spelled.emit (by omega) next fun k small => ?_
    have rest := same (k + 1) (by omega)
    rwa [← Nat.add_assoc, Nat.add_right_comm] at rest

theorem Spelled.nextState (spelled : Spelled l words text i) : Spelled l.nextState words text i := by
  unfold Locals.nextState
  split
  · exact ⟨spelled.pos, spelled.window, spelled.packed⟩
  · split <;> exact ⟨spelled.pos, spelled.window, spelled.packed⟩

theorem Spelled.step {byte : Byte} (spelled : Spelled l words text i) (spells : Spells text i (l.tokenAt byte) j) :
    Spelled (l.step byte).1 (words ++ (l.step byte).2.1) text j := by
  unfold Locals.tokenAt at spells
  unfold Locals.step
  cases state : l.state with
  | controlByte =>
    rw [state] at spells
    obtain rfl : j = i := spells
    rw [List.append_nil]
    exact ⟨spelled.pos, spelled.window, spelled.packed⟩
  | litteralByte =>
    rw [state] at spells
    obtain ⟨k, ⟨rfl, rfl⟩, rfl⟩ := spells
    exact spelled.emit.nextState
  | firstMatchByte =>
    rw [state] at spells
    obtain rfl : j = i := spells
    rw [List.append_nil]
    exact ⟨spelled.pos, spelled.window, spelled.packed⟩
  | secondMatchByte =>
    rw [state] at spells
    dsimp only at spells ⊢
    by_cases ends : (l.matchWord ||| byte.zeroExtend 32).toNat >>> lengthBitCount = endOfStream
    · rw [if_pos ends] at spells ⊢
      obtain ⟨k, rfl, rfl⟩ := spells
      rw [List.append_nil]
      exact spelled
    · rw [if_neg ends] at spells ⊢
      obtain ⟨k, ⟨⟨back, some, inText, near, place, same⟩, rfl⟩, rfl⟩ := spells
      have copies : Spelled { l with state := .secondMatchByte, matchWord := l.matchWord ||| byte.zeroExtend 32 }
          words text i :=
        ⟨spelled.pos, spelled.window, spelled.packed⟩
      have inWindow := (congrArg modWindow place).trans (Nat.mod_mod ..)
      exact (copies.copyMatch some inText near inWindow same).nextState

theorem Spelled.scan {bytes : List Byte} (spelled : Spelled l words text i)
    (spells : Spells text i (scan Locals.readStep l bytes).outputs j) :
    Spelled (Lib.scan Locals.step l bytes).state (words ++ (Lib.scan Locals.step l bytes).outputs) text j := by
  induction bytes generalizing l words i with
  | nil =>
    obtain rfl : j = i := spells
    rw [Lib.scan, List.append_nil]
    exact spelled
  | cons byte rest ih =>
    by_cases stops : (l.step byte).2.2 = true
    · simp only [Lib.scan, Locals.readStep, stops, if_true] at spells ⊢
      exact spelled.step spells
    · rw [Bool.not_eq_true] at stops
      simp only [Lib.scan, Locals.readStep, stops, Bool.false_eq_true, if_false] at spells ⊢
      obtain ⟨k, first, later⟩ := spells_append.mp spells
      have after := ih (spelled.step first) later
      rwa [List.append_assoc] at after

theorem feedAll_error {d : Decompressor} {t : Tokenizer} (running : Running d t) {chunks : List Chunk}
    {left : List Byte} (stops : (scan Locals.step d.vars (allBytes chunks)).stopped = some left)
    (few : left.length ≤ 3) : (feedAll d chunks).1.error = none := by
  induction chunks generalizing d t with
  | nil => cases stops
  | cons chunk chunks ih =>
    have bytes : allBytes (chunk :: chunks) = chunk.bytes ++ allBytes chunks := rfl
    cases stopped : (scan Locals.step d.vars chunk.bytes).stopped with
    | none =>
      have after := (feed_goes running stopped).1
      rw [bytes, scan_append_of_runs stopped] at stops
      exact ih (running.goes stopped) (by rw [after]; exact stops)
    | some left' =>
      obtain ⟨state, -⟩ := feed_stops running stopped
      rw [bytes, scan_append_of_stopped stopped] at stops
      obtain rfl := Option.some.inj stops
      rw [List.length_append] at few
      rw [feedAll, feedAll_ended (by rw [state]), state]
      exact if_neg (by omega)

theorem decompressed_text (memory : Locals) (buffer : Nat → Byte) {tokens : List Token} {count : Nat}
    (written : ∀ token ∈ tokens, token.Written) (spells : Spells text 0 tokens (4 * count + 2))
    {chunks : List Chunk} (split : chunks.flatMap Chunk.words = (writeStream buffer tokens).words) :
    decompressed memory chunks = ((List.range count).map (textWord text), none) := by
  obtain ⟨-, outputs, left, few, stops⟩ := tokens_read_back buffer memory (tokens.attachWith _ written)
  rw [List.attachWith_map_subtype_val] at outputs stops
  have bytes : allBytes chunks = (writeStream buffer tokens).words.flatMap wordBytes := by
    rw [← split, List.flatMap_assoc]
    rfl
  rw [← bytes] at outputs stops
  have ended : Spells text 0 (tokens ++ [.endOfStream]) (4 * count + 2) :=
    spells.snoc (show Token.Tells text _ _ .endOfStream from rfl)
  rw [← outputs] at ended
  have spelled := (create_spelled memory text).scan ended
  obtain ⟨full, length, most, put, -⟩ := spelled.packed
  obtain ⟨words, final⟩ := feedAll_stops (create_running memory) stops
  have error := feedAll_error (create_running memory) stops few
  have bytesLeft := final.bytesLeft
  rw [decompressed]
  have notFull : (feedAll (createDecompressor memory) chunks).1.vars.bytesLeft ≠ 0 := by omega
  rw [deleteDecompressor, if_neg notFull, error, final.eos, words, List.append_nil]
  rw [List.nil_append] at put
  rw [put, show full = count by omega]
  rfl

end Reading

end Portfolio.Compression
