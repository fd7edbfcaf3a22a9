import Portfolio.Lib.Strings

set_option autoImplicit false

namespace Portfolio.Lib

structure CharBuffer (size : Nat) where
  chars : List Byte
  sized : chars.length = size

namespace CharBuffer

variable {size : Nat}

def text (b : CharBuffer size) : CharPtr := b.chars.takeWhile (· != 0)

def put (b : CharBuffer size) (i : Nat) (c : Byte) : Option (CharBuffer size) :=
  if i < size then some ⟨b.chars.set i c, by rw [List.length_set, b.sized]⟩ else none

def putAll (b : CharBuffer size) (i : Nat) : List Byte → Option (CharBuffer size)
  | [] => some b
  | c :: rest =>
    match b.put i c with
    | none => none
    | some b => b.putAll (i + 1) rest

variable {b : CharBuffer size} {i : Nat} {c : Byte}

theorem put_some (b : CharBuffer size) (c : Byte) (inside : i < size) :
    ∃ b', b.put i c = some b' ∧ b'.chars = b.chars.take i ++ c :: b.chars.drop (i + 1) := by
  refine ⟨_, if_pos inside, ?_⟩
  exact List.set_eq_take_append_cons_drop.trans (if_pos (by rw [b.sized]; exact inside))

theorem put_none (outside : size ≤ i) : b.put i c = none := if_neg (by omega)

theorem putAll_some (b : CharBuffer size) (chars : List Byte) (fits : i + chars.length ≤ size) :
    ∃ b', b.putAll i chars = some b' ∧ b'.chars = b.chars.take i ++ (chars ++ b.chars.drop (i + chars.length)) := by
  induction chars generalizing b i with
  | nil => exact ⟨b, rfl, by simp⟩
  | cons c rest ih =>
    rw [List.length_cons] at fits
    obtain ⟨first, put, firstChars⟩ := put_some b c (show i < size by omega)
    obtain ⟨last, puts, lastChars⟩ := @ih (i + 1) first (by omega)
    have length := b.sized
    have front : (b.chars.take i ++ [c]).length = i + 1 := by
      rw [List.length_append, List.length_take, List.length_singleton]
      omega
    rw [List.append_cons] at firstChars
    have before : first.chars.take (i + 1) = b.chars.take i ++ [c] := by
      rw [firstChars, List.take_left' front]
    have behind : first.chars.drop (i + 1 + rest.length) = b.chars.drop (i + (rest.length + 1)) := by
      rw [firstChars, ← List.drop_drop, List.drop_left' front, List.drop_drop, Nat.add_assoc, Nat.add_comm 1]
    refine ⟨last, by rw [putAll, put]; exact puts, ?_⟩
    rw [lastChars, before, behind, List.length_cons, List.append_assoc]
    rfl

theorem take_of_front {before after rest : List Byte} {j : Nat} (is : after = before.take i ++ rest)
    (inside : i ≤ before.length) (le : j ≤ i) : after.take j = before.take j := by
  have length : (before.take i).length = i := List.length_take_of_le inside
  rw [is, List.take_append_of_le_length (by omega), List.take_take, Nat.min_eq_left le]

theorem drop_of_front {before after rest : List Byte} (is : after = before.take i ++ rest)
    (inside : i ≤ before.length) : after.drop i = rest := by
  rw [is, List.drop_left' (List.length_take_of_le inside)]

theorem text_eq {front rest : List Byte} (is : b.chars = front ++ 0 :: rest) (noNul : ∀ c ∈ front, c ≠ 0) :
    b.text = front := by
  rw [text, is, List.takeWhile_append_of_pos (fun c member => by simpa using noNul c member)]
  simp

theorem text_noNul (b : CharBuffer size) : ∀ c ∈ b.text, c ≠ 0 := by
  intro c member
  have kept := List.all_takeWhile (p := (· != (0 : Byte))) (l := b.chars)
  rw [List.all_eq_true] at kept
  simpa using kept c member

theorem text_length_le (b : CharBuffer size) : b.text.length ≤ size := by
  have le := (List.takeWhile_prefix (p := (· != (0 : Byte))) (l := b.chars)).length_le
  rw [b.sized] at le
  exact le

end CharBuffer

end Portfolio.Lib
