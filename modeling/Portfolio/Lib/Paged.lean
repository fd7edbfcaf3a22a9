import Mathlib.Data.List.Basic

set_option autoImplicit false

namespace Portfolio.Lib

universe u v

variable {τ : Type u} {α : Type v}

def PagedFrom (cap : τ → Nat) (slot : τ → Nat → α) (empty : α) : τ → Nat → List τ → List α → Prop
  | page, start, [], items =>
    (∀ i, start + i < cap page → i ≤ items.length → slot page (start + i) = items.getD i empty) ∧
      start + items.length ≤ cap page
  | page, start, next :: rest, items =>
    (∀ i, start + i < cap page → i ≤ items.length → slot page (start + i) = items.getD i empty) ∧
      start ≤ cap page ∧ cap page ≤ start + items.length ∧
      PagedFrom cap slot empty next 0 rest (items.drop (cap page - start))

/-- Item number `k` from slot `start` of the page on is slot `i` of the page `last`, behind which
there is no page. -/
def Reaches (cap : τ → Nat) : τ → Nat → List τ → Nat → τ → Nat → Prop
  | page, start, [], k, last, i => last = page ∧ i = start + k
  | page, start, next :: rest, k, last, i =>
    start ≤ cap page ∧ cap page ≤ start + k ∧ Reaches cap next 0 rest (k - (cap page - start)) last i

variable {cap : τ → Nat} {slot slot' : τ → Nat → α} {empty x : α} {page last : τ} {start i k : Nat}
  {rest : List τ} {items : List α}

theorem PagedFrom.slots (paged : PagedFrom cap slot empty page start rest items) (below : start + i < cap page)
    (within : i ≤ items.length) : slot page (start + i) = items.getD i empty := by
  cases rest with
  | nil => exact paged.1 i below within
  | cons next rest => exact paged.1 i below within

theorem PagedFrom.head (paged : PagedFrom cap slot empty page start rest (x :: items)) (below : start < cap page) :
    slot page start = x :=
  paged.slots (i := 0) below (Nat.zero_le _)

theorem PagedFrom.tail (paged : PagedFrom cap slot empty page start rest (x :: items)) (below : start < cap page) :
    PagedFrom cap slot empty page (start + 1) rest items := by
  have slots : ∀ i, start + 1 + i < cap page → i ≤ items.length →
      slot page (start + 1 + i) = items.getD i empty := by
    intro i bound within
    have := paged.slots (i := i + 1) (by omega) (Nat.succ_le_succ within)
    rwa [show start + (i + 1) = start + 1 + i by omega, List.getD_cons_succ] at this
  cases rest with
  | nil =>
    refine ⟨slots, ?_⟩
    have := paged.2
    simp only [List.length_cons] at this
    omega
  | cons next rest =>
    obtain ⟨-, -, full, further⟩ := paged
    simp only [List.length_cons] at full
    refine ⟨slots, below, by omega, ?_⟩
    rwa [show cap page - start = cap page - (start + 1) + 1 by omega, List.drop_succ_cons] at further

theorem PagedFrom.turn {next : τ} (paged : PagedFrom cap slot empty page start (next :: rest) items)
    (used : cap page ≤ start) : PagedFrom cap slot empty next 0 rest items := by
  have further := paged.2.2.2
  rwa [Nat.sub_eq_zero_of_le used, List.drop_zero] at further

theorem PagedFrom.eq_nil (paged : PagedFrom cap slot empty page start [] items) (used : cap page ≤ start) :
    items = [] := by
  have := paged.2
  exact List.length_eq_zero_iff.mp (by omega)

theorem PagedFrom.end_empty (paged : PagedFrom cap slot empty page start rest []) (below : start < cap page) :
    slot page start = empty :=
  paged.slots (i := 0) below (Nat.le_refl _)

theorem PagedFrom.advance (paged : PagedFrom cap slot empty page start rest items) (within : k ≤ items.length)
    (below : start + k ≤ cap page) : PagedFrom cap slot empty page (start + k) rest (items.drop k) := by
  induction k generalizing start items with
  | zero => exact paged
  | succ k ih =>
    cases items with
    | nil => simp at within
    | cons x items =>
      have further := ih (paged.tail (by omega)) (by simpa using within) (by omega)
      rwa [show start + 1 + k = start + (k + 1) by omega] at further

theorem PagedFrom.next {next : τ} (paged : PagedFrom cap slot empty page 0 (next :: rest) items) :
    cap page ≤ items.length ∧ PagedFrom cap slot empty next 0 rest (items.drop (cap page)) := by
  obtain ⟨-, -, full, further⟩ := paged
  exact ⟨by omega, further⟩

theorem Reaches.mem (reaches : Reaches cap page start rest k last i) : last ∈ page :: rest := by
  induction rest generalizing page start k with
  | nil => exact List.mem_singleton.mpr reaches.1
  | cons next rest ih => exact List.mem_cons_of_mem _ (ih reaches.2.2)

theorem Reaches.exists_append (reaches : Reaches cap page start rest k last i) :
    ∃ before, page :: rest = before ++ [last] := by
  induction rest generalizing page start k with
  | nil => exact ⟨[], by rw [reaches.1]; rfl⟩
  | cons next rest ih =>
    obtain ⟨before, eq⟩ := ih reaches.2.2
    exact ⟨page :: before, by rw [eq]; rfl⟩

theorem PagedFrom.reaches_le (paged : PagedFrom cap slot empty page start rest items)
    (reaches : Reaches cap page start rest items.length last i) : i ≤ cap last := by
  induction rest generalizing page start items with
  | nil =>
    obtain ⟨rfl, rfl⟩ := reaches
    exact paged.2
  | cons next rest ih => exact ih paged.2.2.2 (by rw [List.length_drop]; exact reaches.2.2)

theorem PagedFrom.append (slot' : τ → Nat → α) (paged : PagedFrom cap slot empty page start rest items) (nodup : (page :: rest).Nodup)
    (reaches : Reaches cap page start rest items.length last i) (below : i < cap last) (put : slot' last i = x)
    (behind : i + 1 < cap last → slot' last (i + 1) = empty)
    (same : ∀ p j, p ≠ last ∨ j < i → slot' p j = slot p j) :
    PagedFrom cap slot' empty page start rest (items ++ [x]) ∧
      Reaches cap page start rest (items ++ [x]).length last (i + 1) := by
  induction rest generalizing page start items with
  | nil =>
    obtain ⟨rfl, rfl⟩ := reaches
    refine ⟨⟨fun j bound within => ?_, ?_⟩, rfl, ?_⟩
    · rw [List.length_append, List.length_singleton] at within
      rcases Nat.lt_trichotomy j items.length with old | rfl | new
      · rw [same _ _ (.inr (by omega)), paged.slots bound (Nat.le_of_lt old)]
        simp [List.getD, List.getElem?_append_left old]
      · simpa [List.getD] using put
      · obtain rfl : j = items.length + 1 := by omega
        rw [← Nat.add_assoc] at bound ⊢
        rw [behind bound]
        simp [List.getD]
    · rw [List.length_append, List.length_singleton]
      omega
    · rw [List.length_append, List.length_singleton, Nat.add_assoc]
  | cons next rest ih =>
    obtain ⟨slots, before, full, further⟩ := paged
    obtain ⟨-, -, reaches⟩ := reaches
    have other : page ≠ last := by
      rintro rfl
      exact (List.nodup_cons.mp nodup).1 reaches.mem
    have drop : (items ++ [x]).drop (cap page - start) = items.drop (cap page - start) ++ [x] :=
      List.drop_append_of_le_length (by omega)
    obtain ⟨paged', reaches'⟩ := ih further (List.nodup_cons.mp nodup).2 (by rwa [List.length_drop])
    refine ⟨⟨fun j bound within => ?_, before, ?_, ?_⟩, before, ?_, ?_⟩
    · have old : j < items.length := by omega
      rw [same _ _ (.inl other), slots j bound (Nat.le_of_lt old)]
      simp [List.getD, List.getElem?_append_left old]
    · rw [List.length_append]
      omega
    · rwa [drop]
    · rw [List.length_append]
      omega
    · rw [← drop] at reaches'
      rwa [List.length_drop] at reaches'

theorem PagedFrom.append_page (slot' : τ → Nat → α) (new : τ) (x : α) (paged : PagedFrom cap slot empty page start rest items)
    (reaches : Reaches cap page start rest items.length last i) (used : i = cap last) (room : 0 < cap new)
    (put : slot' new 0 = x) (behind : 1 < cap new → slot' new 1 = empty)
    (same : ∀ p ∈ page :: rest, ∀ j, slot' p j = slot p j) :
    PagedFrom cap slot' empty page start (rest ++ [new]) (items ++ [x]) ∧
      Reaches cap page start (rest ++ [new]) (items ++ [x]).length new 1 := by
  have slots : ∀ j, start + j < cap page → j < items.length → slot' page (start + j) = (items ++ [x]).getD j empty := by
    intro j bound old
    rw [same page List.mem_cons_self, paged.slots bound (Nat.le_of_lt old)]
    simp [List.getD, List.getElem?_append_left old]
  induction rest generalizing page start items with
  | nil =>
    obtain ⟨rfl, rfl⟩ := reaches
    have drop : (items ++ [x]).drop (cap last - start) = [x] := by
      rw [List.drop_append_of_le_length (by omega), List.drop_of_length_le (by omega), List.nil_append]
    refine ⟨⟨fun j bound _ => slots j bound (by omega), by omega, ?_, ?_⟩, by omega, ?_, rfl, ?_⟩
    · rw [List.length_append]
      omega
    · rw [drop]
      refine ⟨fun j bound within => ?_, by simpa using Nat.succ_le_of_lt room⟩
      rw [Nat.zero_add] at bound ⊢
      rw [List.length_singleton] at within
      rcases Nat.le_one_iff_eq_zero_or_eq_one.mp within with rfl | rfl
      · exact put
      · exact behind bound
    · rw [List.length_append]
      omega
    · rw [List.length_append, List.length_singleton]
      omega
  | cons next rest ih =>
    obtain ⟨-, before, full, further⟩ := paged
    obtain ⟨-, -, reaches⟩ := reaches
    have drop : (items ++ [x]).drop (cap page - start) = items.drop (cap page - start) ++ [x] :=
      List.drop_append_of_le_length (by omega)
    obtain ⟨paged', reaches'⟩ := ih further (by rwa [List.length_drop])
      (fun p member => same p (List.mem_cons_of_mem _ member)) (by
        intro j bound old
        rw [same next (by simp), further.slots bound (Nat.le_of_lt old)]
        simp [List.getD, List.getElem?_append_left old])
    refine ⟨⟨fun j bound _ => slots j bound (by omega), before, ?_, ?_⟩, before, ?_, ?_⟩
    · rw [List.length_append]
      omega
    · rwa [drop]
    · rw [List.length_append]
      omega
    · rw [← drop] at reaches'
      rwa [List.length_drop] at reaches'

theorem PagedFrom.take (paged : PagedFrom cap slot empty page start rest items) (nodup : (page :: rest).Nodup)
    (within : k ≤ items.length) (reaches : Reaches cap page start rest k last i)
    (emptied : i < cap last → slot' last i = empty) (same : ∀ p j, p ≠ last ∨ j < i → slot' p j = slot p j) :
    PagedFrom cap slot' empty page start rest (items.take k) := by
  induction rest generalizing page start items k with
  | nil =>
    obtain ⟨rfl, rfl⟩ := reaches
    refine ⟨fun j bound inside => ?_, ?_⟩
    · rw [List.length_take, Nat.min_eq_left within] at inside
      rcases Nat.lt_or_eq_of_le inside with old | rfl
      · rw [same _ _ (.inr (by omega)), paged.slots bound (by omega)]
        simp [List.getD, old]
      · rw [emptied bound]
        rw [List.getD, List.getElem?_eq_none (List.length_take_le _ _), Option.getD_none]
    · have := paged.2
      rw [List.length_take]
      omega
  | cons next rest ih =>
    obtain ⟨slots, before, full, further⟩ := paged
    obtain ⟨-, reached, reaches⟩ := reaches
    have other : page ≠ last := by
      rintro rfl
      exact (List.nodup_cons.mp nodup).1 reaches.mem
    refine ⟨fun j bound inside => ?_, before, ?_, ?_⟩
    · rw [same _ _ (.inl other), slots j bound (by omega)]
      simp [List.getD, show j < k by omega]
    · rw [List.length_take]
      omega
    · rw [List.drop_take]
      exact ih further (List.nodup_cons.mp nodup).2 (by rw [List.length_drop]; omega) reaches

def pageItems [DecidableEq α] (cap : τ → Nat) (slot : τ → Nat → α) (empty : α) (page : τ) : List α :=
  ((List.range (cap page)).map (slot page)).takeWhile (· ≠ empty)

theorem takeWhile_slots [DecidableEq α] {size : Nat} {slots : Nat → α}
    (stored : ∀ i < size, i ≤ items.length → slots i = items.getD i empty) (proper : empty ∉ items) :
    ((List.range size).map slots).takeWhile (· ≠ empty) = items.take size := by
  induction items generalizing size slots with
  | nil =>
    cases size with
    | zero => rfl
    | succ size =>
      have first : slots 0 = empty := stored 0 (by omega) (by simp)
      simp [List.range_succ_eq_map, first]
  | cons y items ih =>
    cases size with
    | zero => rfl
    | succ size =>
      have first : slots 0 = y := stored 0 (by omega) (by simp)
      have present : y ≠ empty := fun same => proper (same ▸ List.mem_cons_self)
      have later : ((List.range size).map (slots ∘ Nat.succ)).takeWhile (· ≠ empty) = items.take size := ih
        (fun i below within => by
          have := stored (i + 1) (by omega) (Nat.succ_le_succ within)
          rwa [List.getD_cons_succ] at this)
        fun member => proper (List.mem_cons_of_mem _ member)
      rw [List.range_succ_eq_map, List.map_cons, first, List.map_map, List.takeWhile_cons, if_pos (by simpa using present),
        later, List.take_succ_cons]

theorem PagedFrom.flatMap_pageItems [DecidableEq α] (paged : PagedFrom cap slot empty page 0 rest items)
    (proper : empty ∉ items) : (page :: rest).flatMap (pageItems cap slot empty) = items := by
  induction rest generalizing page items with
  | nil =>
    have slots := paged.1
    simp only [Nat.zero_add] at slots
    rw [List.flatMap_cons, List.flatMap_nil, List.append_nil, pageItems, takeWhile_slots slots proper]
    have := paged.2
    exact List.take_of_length_le (by omega)
  | cons next rest ih =>
    have slots := paged.1
    simp only [Nat.zero_add] at slots
    rw [List.flatMap_cons, ih paged.next.2 fun member => proper (List.mem_of_mem_drop member), pageItems,
      takeWhile_slots slots proper, List.take_append_drop]

end Portfolio.Lib
