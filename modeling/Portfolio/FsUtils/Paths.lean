import Portfolio.FsUtils.CopyPaths
import Mathlib.Data.List.DropRight

set_option autoImplicit false

namespace Portfolio.FsUtils

open Portfolio.Lib

structure PathBuffer (size : Nat) extends CharBuffer size where
  terminated : 0 ∈ chars

def trimSlashes (path : CharPtr) : Nat → Nat
  | 0 => 0
  | pathLen + 1 => if path[pathLen]? = some slash then trimSlashes path pathLen else pathLen + 1

def afterSlash (path : CharPtr) : Nat → Nat
  | 0 => if path[0]? = some slash then 1 else 0
  | pathLen + 1 => if path[pathLen + 1]? = some slash then pathLen + 2 else afterSlash path pathLen

def findFinalComponent (path : CharPtr) : Nat := afterSlash path (trimSlashes path path.length)

def keptLength (path append : CharPtr) : Nat :=
  if append.head? = some slash then 0 else ignoreSlashes path path.length

/-- `AppendPath` fails with -1. -/
def NoRoom (path append : CharPtr) (numBytes : Nat) : Prop :=
  numBytes ≤ keptLength path append + 1 + append.length + 1

def withoutSlashes (path : CharPtr) : CharPtr := path.rdropWhile (· == slash)

def inside (directory component : CharPtr) : CharPtr :=
  if component.head? = some slash ∨ directory = [] then component
  else withoutSlashes directory ++ slash :: component

def AppendRight {size : Nat} (path : PathBuffer size) (append : CString) : Prop :=
  ∃ b, appendPath path.toCharBuffer append.chars size = some b ∧
    (NoRoom path.text append.chars size ∧ b = path.toCharBuffer ∨
      ¬NoRoom path.text append.chars size ∧ 0 ∈ b.chars ∧ b.text = inside path.text append.chars)

def FinalAt (path : CharPtr) (k : Nat) : Prop :=
  ∃ front component slashes, path = front ++ component ++ slashes ∧ k = front.length ∧ component ≠ [] ∧
    slash ∉ component ∧ (∀ c ∈ slashes, c = slash) ∧ (front = [] ∨ front.getLast? = some slash)

def FinalRight (path : CharPtr) : Prop := (∃ c ∈ path, c ≠ slash) → FinalAt path (findFinalComponent path)

def FoundAgain {size : Nat} (path : PathBuffer size) (append : CString) : Prop :=
  append.chars ≠ [] → slash ∉ append.chars → ¬NoRoom path.text append.chars size →
    ∃ b, appendPath path.toCharBuffer append.chars size = some b ∧
      b.text.drop (findFinalComponent b.text) = append.chars

section Slashes

variable {path front component core : CharPtr}

theorem rdropWhile_getLast {p : Byte → Bool} {c : Byte} (last : (path.rdropWhile p).getLast? = some c) :
    p c = false := by
  obtain ⟨front, eq⟩ := List.getLast?_eq_some_iff.mp last
  have stops := List.rdropWhile_last_not p path (by simp [eq])
  simpa [eq] using stops

theorem withoutSlashes_append (path : CharPtr) :
    ∃ slashes, path = withoutSlashes path ++ slashes ∧ (∀ c ∈ slashes, c = slash) ∧
      (withoutSlashes path).getLast? ≠ some slash := by
  refine ⟨path.rtakeWhile (· == slash), List.rdropWhile_append_rtakeWhile.symm, fun c member => ?_, fun last => ?_⟩
  · simpa using List.mem_rtakeWhile_imp member
  · simpa using rdropWhile_getLast last

theorem getElem?_core {slashes : CharPtr} {j : Nat} (all : ∀ c ∈ slashes, c = slash) (below : j < slashes.length) :
    (core ++ slashes)[core.length + j]? = some slash := by
  rw [List.getElem?_append_right (Nat.le_add_right ..), Nat.add_sub_cancel_left,
    List.getElem?_eq_getElem below, all _ (List.getElem_mem below)]

theorem getElem?_last {slashes : CharPtr} {m : Nat} (length : core.length = m + 1)
    (last : core.getLast? ≠ some slash) :
    (core ++ slashes)[m]? ≠ some slash := by
  rw [List.getElem?_append_left (by omega)]
  rwa [List.getLast?_eq_getElem?, length] at last

theorem ignoreSlashes_eq {slashes : CharPtr} (all : ∀ c ∈ slashes, c = slash) (last : core.getLast? ≠ some slash)
    {j : Nat} (le : j ≤ slashes.length) :
    ignoreSlashes (core ++ slashes) (core.length + j) = if core = [] then min 1 j else core.length := by
  induction j with
  | zero =>
    cases length : core.length with
    | zero => simp [List.length_eq_zero_iff.mp length, ignoreSlashes]
    | succ m =>
      have some : core ≠ [] := fun none => by simp [none] at length
      rw [Nat.add_zero, ignoreSlashes, if_neg (fun more => getElem?_last length last more.2), if_neg some]
  | succ j ih =>
    rw [← Nat.add_assoc, ignoreSlashes, getElem?_core all le, ih (by omega)]
    by_cases none : core = []
    · subst none
      simp only [List.length_nil, if_true, and_true]
      split <;> omega
    · have positive := List.length_pos_of_ne_nil none
      rw [if_pos ⟨by omega, rfl⟩, if_neg none, if_neg none]

theorem trimSlashes_eq {slashes : CharPtr} (all : ∀ c ∈ slashes, c = slash) (last : core.getLast? ≠ some slash)
    {j : Nat} (le : j ≤ slashes.length) : trimSlashes (core ++ slashes) (core.length + j) = core.length := by
  induction j with
  | zero =>
    cases length : core.length with
    | zero => rfl
    | succ m => rw [Nat.add_zero, trimSlashes, if_neg (getElem?_last length last)]
  | succ j ih => rw [← Nat.add_assoc, trimSlashes, if_pos (getElem?_core all le), ih (by omega)]

theorem afterSlash_eq {m : Nat} (noSlash : ∀ i, front.length ≤ i → i ≤ m → path[i]? ≠ some slash)
    (behind : front = [] ∨ path[front.length - 1]? = some slash) (le : front.length ≤ m) :
    afterSlash path m = front.length := by
  induction m with
  | zero =>
    rw [afterSlash, if_neg (noSlash 0 le (Nat.le_refl _))]
    omega
  | succ m ih =>
    rw [afterSlash, if_neg (noSlash (m + 1) le (Nat.le_refl _))]
    by_cases more : front.length ≤ m
    · exact ih (fun i low high => noSlash i low (by omega)) more
    · have whole : front.length = m + 1 := by omega
      rcases behind with rfl | slashed
      · cases whole
      · rw [whole, Nat.add_sub_cancel] at slashed
        rw [whole]
        cases m with
        | zero => rw [afterSlash, if_pos slashed]
        | succ m => rw [afterSlash, if_pos slashed]

theorem findFinalComponent_eq (some : component ≠ []) (noSlash : slash ∉ component)
    (behind : front = [] ∨ front.getLast? = Option.some slash) :
    findFinalComponent (front ++ component) = front.length := by
  have last : (front ++ component).getLast? ≠ Option.some slash := by
    rw [List.getLast?_append_of_ne_nil _ some]
    exact fun slashed => noSlash (List.mem_of_getLast? slashed)
  have trim := trimSlashes_eq (fun c member => absurd member List.not_mem_nil) last (Nat.le_refl 0)
  rw [List.append_nil, Nat.add_zero] at trim
  rw [findFinalComponent, trim]
  refine afterSlash_eq (fun i low high slashed => ?_) (behind.imp_right fun slashed => ?_) (by simp)
  · rw [List.getElem?_append_right low] at slashed
    exact noSlash (List.mem_of_getElem? slashed)
  · have positive : 0 < front.length := List.length_pos_of_ne_nil fun none => by simp [none] at slashed
    rw [List.getElem?_append_left (by omega), ← List.getLast?_eq_getElem?]
    exact slashed

theorem finalRight_iff (path : CharPtr) :
    FinalRight path ↔ path.getLast? ≠ some slash ∨ ∀ c ∈ path, c = slash := by
  constructor
  · intro right
    by_contra! ends
    obtain ⟨slashes, whole, all, last⟩ := withoutSlashes_append path
    generalize withoutSlashes path = core at whole last
    have some : 0 < slashes.length := List.length_pos_of_ne_nil fun none => by
      rw [none, List.append_nil] at whole
      exact last (whole ▸ ends.1)
    have trim := trimSlashes_eq all last (Nat.le_refl _)
    rw [← List.length_append, ← whole] at trim
    have found := right ends.2
    -- the scan stops at once, at the first slash that was removed
    have stop : findFinalComponent path = core.length + 1 := by
      have slashed : path[core.length]? = Option.some slash := whole ▸ getElem?_core (j := 0) all some
      rw [findFinalComponent, trim]
      cases length : core.length with
      | zero => rw [afterSlash, if_pos (length ▸ slashed)]
      | succ m => rw [afterSlash, if_pos (length ▸ slashed)]
    obtain ⟨front, component, slashes', split, at', more, noSlash, -, -⟩ := found
    obtain ⟨c, rest, rfl⟩ := List.exists_cons_of_ne_nil more
    have first : path[core.length + 1]? = Option.some c := by
      rw [← stop, at', split, List.append_assoc, List.getElem?_append_right (Nat.le_refl _)]
      simp
    rw [whole, List.getElem?_append_right (Nat.le_succ _)] at first
    have isSlash : c = slash := all c (List.mem_of_getElem? first)
    exact noSlash (isSlash ▸ List.mem_cons_self)
  · rintro ends ⟨c, member, other⟩
    have last := ends.resolve_right fun all => other (all c member)
    have whole : path = path.rdropWhile (· != slash) ++ path.rtakeWhile (· != slash) :=
      List.rdropWhile_append_rtakeWhile.symm
    have noSlash : slash ∉ path.rtakeWhile (· != slash) := fun slashed => by
      simpa using List.mem_rtakeWhile_imp slashed
    have behind : path.rdropWhile (· != slash) = [] ∨ (path.rdropWhile (· != slash)).getLast? = some slash := by
      refine (List.eq_nil_or_concat _).imp_right ?_
      rintro ⟨front, c, eq⟩
      rw [List.concat_eq_append] at eq
      have isLast : (path.rdropWhile (· != slash)).getLast? = some c := by rw [eq, List.getLast?_concat]
      rw [isLast]
      simpa using rdropWhile_getLast isLast
    have some : path.rtakeWhile (· != slash) ≠ [] := fun none => by
      rw [none, List.append_nil] at whole
      rw [← whole] at behind
      rcases behind with rfl | slashed
      · cases member
      · exact last slashed
    refine ⟨_, _, [], by rw [List.append_nil]; exact whole, ?_, some, noSlash, by simp, behind⟩
    conv_lhs => rw [whole]
    exact findFinalComponent_eq some noSlash behind

end Slashes

section Appending

variable {size : Nat} (path : PathBuffer size) (append : CString)

theorem text_split (b : PathBuffer size) : ∃ rest, b.chars = b.text ++ 0 :: rest := by
  have whole := List.takeWhile_append_dropWhile (p := (· != (0 : Byte))) (l := b.chars)
  cases behind : b.chars.dropWhile (· != 0) with
  | nil =>
    rw [behind, List.append_nil] at whole
    exact absurd rfl (b.text_noNul 0 (by rw [CharBuffer.text, whole]; exact b.terminated))
  | cons c rest =>
    have stops := List.head_dropWhile_not (· != (0 : Byte)) (l := b.chars)
      (by rw [behind]; exact List.cons_ne_nil _ _)
    simp only [behind, List.head_cons, bne_eq_false_iff_eq] at stops
    rw [behind, stops] at whole
    exact ⟨rest, whole.symm⟩

theorem keptLength_le : keptLength path.text append.chars ≤ path.text.length := by
  obtain ⟨slashes, whole, all, last⟩ := withoutSlashes_append path.text
  unfold keptLength
  split
  · exact Nat.zero_le _
  · have kept := ignoreSlashes_eq all last (Nat.le_refl _)
    rw [← List.length_append, ← whole] at kept
    have length := congrArg List.length whole
    rw [List.length_append] at length
    rw [kept]
    split
    · omega
    · omega

def appended : CharPtr :=
  path.text.take (keptLength path.text append.chars) ++
    ((if 1 < keptLength path.text append.chars then [slash] else []) ++ append.chars)

theorem appendPath_fits (room : ¬NoRoom path.text append.chars size) :
    ∃ b, appendPath path.toCharBuffer append.chars size = some b ∧ 0 ∈ b.chars ∧
      b.text = appended path append := by
  have le := keptLength_le path append
  obtain ⟨rest, whole⟩ := text_split path
  unfold NoRoom at room
  have place : (if append.chars.head? = some slash then 0 else ignoreSlashes path.text path.text.length) =
    keptLength path.text append.chars := rfl
  unfold appendPath appended
  dsimp only
  rw [place, if_neg room]
  generalize keptLength path.text append.chars = kept at *
  have front : path.chars.take kept = path.text.take kept := by
    rw [whole, List.take_append_of_le_length le]
  have ends : (append.chars ++ [0]).length = append.chars.length + 1 := List.length_append
  have noNul : ∀ c ∈ path.text.take kept, c ≠ 0 := fun c member => path.text_noNul c (List.mem_of_mem_take member)
  by_cases long : 1 < kept
  · obtain ⟨b, put, chars⟩ := CharBuffer.put_some path.toCharBuffer slash (show kept < size by omega)
    obtain ⟨b', puts, chars'⟩ := CharBuffer.putAll_some b (append.chars ++ [0]) (show kept + 1 + _ ≤ size by omega)
    rw [if_pos long, if_pos long, put]
    refine ⟨b', puts, by simp [chars'], CharBuffer.text_eq
      (?_ : _ = _ ++ 0 :: b.chars.drop (kept + 1 + (append.chars ++ [0]).length)) ?_⟩
    · have length : (path.chars.take kept ++ [slash]).length = kept + 1 := by
        rw [List.length_append, List.length_take, path.sized, List.length_singleton]
        omega
      rw [chars', chars, List.append_cons, List.take_left' length, front]
      simp only [List.append_assoc, List.cons_append, List.nil_append]
    · intro c member
      simp only [List.mem_append, List.mem_singleton] at member
      rcases member with old | rfl | new
      · exact noNul c old
      · decide
      · exact append.noNul c new
  · obtain ⟨b, puts, chars⟩ := CharBuffer.putAll_some path.toCharBuffer (append.chars ++ [0])
      (show kept + _ ≤ size by omega)
    rw [if_neg long, if_neg long]
    refine ⟨b, puts, by simp [chars], CharBuffer.text_eq
      (?_ : _ = _ ++ 0 :: path.chars.drop (kept + (append.chars ++ [0]).length)) ?_⟩
    · rw [chars, front]
      simp only [List.append_assoc, List.cons_append, List.nil_append]
    · intro c member
      rcases List.mem_append.mp member with old | new
      · exact noNul c old
      · exact append.noNul c new

theorem appended_eq_iff : appended path append = inside path.text append.chars ↔
    append.chars.head? = some slash ∨ (withoutSlashes path.text).length ≠ 1 := by
  obtain ⟨slashes, whole, all, last⟩ := withoutSlashes_append path.text
  unfold appended inside keptLength
  by_cases absolute : append.chars.head? = some slash
  · simp [absolute]
  · have kept := ignoreSlashes_eq all last (Nat.le_refl _)
    rw [← List.length_append, ← whole] at kept
    simp only [kept, absolute, false_or, if_false]
    generalize withoutSlashes path.text = core at *
    by_cases root : core = []
    · subst root
      rw [List.nil_append] at whole
      rw [whole]
      cases slashes with
      | nil => simp
      | cons c rest => simp [all c List.mem_cons_self]
    · have some : path.text ≠ [] := fun none => by simp [none, root] at whole
      have keeps : path.text.take core.length = core := by rw [whole, List.take_left' rfl]
      have positive := List.length_pos_of_ne_nil root
      rw [if_neg root, if_neg some, keeps]
      by_cases long : 1 < core.length
      · simp only [if_pos long, List.singleton_append, true_iff]
        omega
      · rw [if_neg long, List.nil_append]
        refine iff_of_false (fun same => ?_) (by omega)
        have length := congrArg List.length same
        simp only [List.length_append, List.length_cons] at length
        omega

theorem appendRight_iff : AppendRight path append ↔ NoRoom path.text append.chars size ∨
    append.chars.head? = some slash ∨ (withoutSlashes path.text).length ≠ 1 := by
  rw [← appended_eq_iff]
  by_cases room : NoRoom path.text append.chars size
  · exact iff_of_true ⟨_, if_pos room, .inl ⟨room, rfl⟩⟩ (.inl room)
  · obtain ⟨b, appends, ends, text⟩ := appendPath_fits path append room
    constructor
    · rintro ⟨b', appends', outcome⟩
      obtain rfl := Option.some.inj (appends.symm.trans appends')
      obtain ⟨-, -, composed⟩ := outcome.resolve_left fun failed => room failed.1
      exact .inr (text.symm.trans composed)
    · intro composed
      exact ⟨b, appends, .inr ⟨room, ends, text.trans (composed.resolve_left room)⟩⟩

theorem foundAgain (right : AppendRight path append) : FoundAgain path append := by
  intro some noSlash room
  obtain ⟨b, appends, outcome⟩ := right
  obtain ⟨-, -, text⟩ := outcome.resolve_left fun failed => room failed.1
  refine ⟨b, appends, ?_⟩
  have relative : append.chars.head? ≠ Option.some slash := fun slashed => noSlash (List.mem_of_mem_head? slashed)
  rw [text, inside]
  by_cases here : path.text = []
  · rw [if_pos (.inr here), ← List.nil_append append.chars, findFinalComponent_eq some noSlash (.inl rfl)]
    rfl
  · rw [if_neg (not_or.mpr ⟨relative, here⟩), List.append_cons,
      findFinalComponent_eq some noSlash (.inr List.getLast?_concat), List.drop_left]

theorem paths_right_iff : (AppendRight path append ∧ FinalRight path.text ∧ FoundAgain path append) ↔
    (NoRoom path.text append.chars size ∨ append.chars.head? = some slash ∨
      (withoutSlashes path.text).length ≠ 1) ∧
    (path.text.getLast? ≠ some slash ∨ ∀ c ∈ path.text, c = slash) := by
  rw [← appendRight_iff, ← finalRight_iff]
  exact ⟨fun right => ⟨right.1, right.2.1⟩, fun right => ⟨right.1, right.2, foundAgain path append right.1⟩⟩

theorem appendPath_short :
    ¬ AppendRight (⟨⟨[97, 0, 0, 0, 0, 0, 0, 0], rfl⟩, by decide⟩ : PathBuffer 8) ⟨[98], by decide⟩ := by
  rintro ⟨b, appends, outcome⟩
  obtain rfl := Option.some.inj appends
  rcases outcome with ⟨-, same⟩ | ⟨-, -, text⟩
  · exact absurd (congrArg CharBuffer.chars same) (by decide)
  · exact absurd text (by decide)

end Appending

end Portfolio.FsUtils
