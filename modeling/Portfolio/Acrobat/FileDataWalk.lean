import Portfolio.Acrobat.FileData

set_option autoImplicit false

namespace Portfolio.Acrobat

open Portfolio.Lib

namespace Transfer

variable {fs : AcroFS} {answers : DataAnswers} {writing : Bool} {t t' : Transfer} {btBuf : BtBuf} {i n : Nat}
  {after blocks L TB : List BlockNum} {block : BlockNum}

def walk (fs : AcroFS) (answers : DataAnswers) (writing : Bool) : List BlockNum → Transfer →
    Except FileFailure Transfer
  | [], t => .ok t
  | block :: rest, t =>
    if t.numBytes = 0 then .ok t
    else
      (transferBlock fs answers writing t block).bind fun
        | none => .ok t
        | some t' => walk fs answers writing rest t'

@[simp] theorem write_slot (t : Transfer) (n : Nat) (block : BlockNum) :
    (t.write fs n block).file.slot = t.file.slot := by
  funext p
  cases p <;> simp only [write] <;> split <;> rfl

@[simp] theorem write_link (t : Transfer) (n : Nat) (block : BlockNum) :
    (t.write fs n block).file.link = t.file.link := by
  simp only [write]
  split <;> rfl

@[simp] theorem write_blockTable (t : Transfer) (n : Nat) (block : BlockNum) :
    (t.write fs n block).file.fil.blockTable = t.file.fil.blockTable := by
  simp only [write]
  split <;> rfl

theorem transferBlock_tables (moved : transferBlock fs answers writing t block = .ok (some t')) :
    t'.file.slot = t.file.slot ∧ t'.file.next = t.file.next := by
  rw [transferBlock] at moved
  split at moved
  · cases moved
  split at moved
  · cases moved
  split at moved
  · split at moved
    · cases moved
    · cases moved
      refine ⟨write_slot t _ block, funext fun p => ?_⟩
      cases p with
      | none => exact write_blockTable t _ block
      | some bt => exact congrFun (write_link t _ block) bt
  · cases moved
    exact ⟨rfl, rfl⟩

theorem entry_cases {file : FileTables}
    (paged : PagedFrom (maxEntries fs) file.slot NULL_BLOCKNUM btBuf i (after.map some) blocks)
    (proper : NULL_BLOCKNUM ∉ blocks) :
    (∃ rest, blocks = file.entry fs btBuf i :: rest ∧ file.entry fs btBuf i ≠ NULL_BLOCKNUM ∧
      i < maxEntries fs btBuf) ∨
    (file.entry fs btBuf i = NULL_BLOCKNUM ∧ (after = [] → blocks = []) ∧ (after ≠ [] → maxEntries fs btBuf ≤ i)) := by
  by_cases below : i < maxEntries fs btBuf
  · have entry : file.entry fs btBuf i = file.slot btBuf i := if_neg (Nat.not_le_of_lt below)
    cases blocks with
    | nil =>
      refine .inr ⟨entry.trans (paged.end_empty below), fun _ => rfl, fun more => ?_⟩
      obtain ⟨next, later, rfl⟩ := List.exists_cons_of_ne_nil more
      exact paged.2.2.1
    | cons block rest =>
      rw [paged.head below] at entry
      refine .inl ⟨rest, by rw [entry], ?_, below⟩
      rw [entry]
      rintro rfl
      exact proper List.mem_cons_self
  · have full := Nat.le_of_not_lt below
    refine .inr ⟨if_pos full, ?_, fun _ => full⟩
    rintro rfl
    exact paged.eq_nil full

theorem walk_done (done : t.numBytes = 0) : walk fs answers writing blocks t = .ok t := by
  cases blocks with
  | nil => rfl
  | cons block rest => rw [walk, if_pos done]

theorem loop_eq_walk {steps : Nat} (chain : Chain t.file.link NULL_BLOCKNUM (t.file.next btBuf) after)
    (paged : PagedFrom (maxEntries fs) t.file.slot NULL_BLOCKNUM btBuf i (after.map some) blocks)
    (proper : NULL_BLOCKNUM ∉ blocks) (onVolume : ∀ b ∈ after, b < fs.volumeBlockCount)
    (fuel : blocks.length + after.length < steps) :
    (∃ e b, answers.readTable b = some e ∧ loop fs answers writing steps t btBuf i = .error (.answered e)) ∨
    loop fs answers writing steps t btBuf i = walk fs answers writing blocks t := by
  induction steps generalizing t btBuf i after blocks with
  | zero => omega
  | succ steps ih =>
    rw [loop]
    by_cases done : t.numBytes = 0
    · rw [if_pos done]
      exact .inr (walk_done done).symm
    rw [if_neg done]
    rcases entry_cases paged proper with ⟨rest, rfl, present, below⟩ | ⟨ended, last, full⟩
    · rw [if_neg present, walk, if_neg done]
      cases moved : transferBlock fs answers writing t (t.file.entry fs btBuf i) with
      | error failure => exact .inr rfl
      | ok result =>
        cases result with
        | none => exact .inr rfl
        | some t' =>
          obtain ⟨slot, next⟩ := transferBlock_tables moved
          have link : t'.file.link = t.file.link := funext fun b => congrFun next (some b)
          refine ih ?_ ?_ (fun member => proper (List.mem_cons_of_mem _ member)) onVolume
            (by simp only [List.length_cons] at fuel; omega)
          · rw [link, next]
            exact chain
          · rw [slot]
            exact paged.tail below
    · rw [if_pos ended]
      cases after with
      | nil =>
        rw [if_pos (show t.file.next btBuf = NULL_BLOCKNUM from chain), last rfl]
        exact .inr rfl
      | cons b later =>
        obtain ⟨next, ne, tail⟩ := chain
        rw [next, if_neg ne, readMetaBlock, if_pos (onVolume b List.mem_cons_self)]
        cases read : answers.readTable b with
        | some e => exact .inl ⟨e, b, read, rfl⟩
        | none =>
          exact ih tail (paged.turn (full (List.cons_ne_nil _ _))) proper
            (fun c member => onVolume c (List.mem_cons_of_mem _ member)) (by simp only [List.length_cons] at fuel; omega)

theorem readWriteBlocks_eq_walk (answers : DataAnswers) (writing : Bool) (laid : t.file.Laid fs L TB) (below : t.fblock < L.length) :
    (∃ e b, answers.readTable b = some e ∧ readWriteBlocks fs answers writing t = .error (.answered e)) ∨
    readWriteBlocks fs answers writing t = walk fs answers writing (L.drop t.fblock) t := by
  rw [readWriteBlocks, if_neg (by rw [laid.numBlocks]; omega)]
  rcases FileTables.seekFileBlock_cases answers.readTable laid (Nat.le_of_lt below)
    (Nat.lt_of_lt_of_le below laid.length_le_capacity) with ⟨e, b, read, eq⟩ | ⟨btBuf, i, after, eq, cursor⟩
  · rw [eq]
    exact .inl ⟨e, b, read, rfl⟩
  · rw [eq]
    have few : after.length ≤ TB.length := by simpa using cursor.suffix.length_le
    have bounded := laid.length_le
    refine loop_eq_walk cursor.chain cursor.paged ?_ ?_ (by rw [List.length_drop]; omega)
    · exact fun member => laid.ne_null (List.mem_append_left _ (List.mem_of_mem_drop member)) rfl
    · intro b member
      have inside := cursor.suffix.subset (List.mem_cons_of_mem _ (List.mem_map_of_mem member))
      have : b ∈ TB := by simpa using inside
      exact laid.onVolume b (List.mem_append_right _ this)

end Transfer

end Portfolio.Acrobat
