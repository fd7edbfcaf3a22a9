import Portfolio.Kernel.ItemCalls
import Portfolio.Kernel.ResourceSlots
import Mathlib.Algebra.BigOperators.Group.Finset.Piecewise

set_option autoImplicit false

namespace Portfolio.Kernel

theorem toInt_neg_iff_failed (it : Item) : it.toInt < 0 ↔ failed it = true := by
  rw [failed, BitVec.msb_eq_toInt, decide_eq_true_iff]

def Number (it : Item) : Prop := ¬ it.toInt < 0 ∧ it &&& itemWasOpened = 0

def openWord (it : Item) : Item := it ||| itemWasOpened

theorem Number.word {it : Item} (number : Number it) : ¬ (openWord it).toInt < 0 := by
  have first := number.1
  rw [toInt_neg_iff_failed, failed] at first ⊢
  rw [openWord, BitVec.msb_or, Bool.eq_false_of_not_eq_true first]
  decide

theorem Number.ne_openWord {it other : Item} (number : Number it) : openWord other ≠ it := by
  intro equal
  have flag : openWord other &&& itemWasOpened = itemWasOpened := by
    apply BitVec.eq_of_getElem_eq
    intro i inside
    simp only [openWord, BitVec.getElem_and, BitVec.getElem_or]
    cases itemWasOpened[i] <;> simp
  rw [equal, number.2] at flag
  exact absurd flag (by decide)

theorem Number.openWord_inj {it other : Item} (number : Number it) (number' : Number other)
    (equal : openWord it = openWord other) : it = other := by
  apply BitVec.eq_of_getElem_eq
  intro i inside
  have left := congrArg (fun w : Item => w[i]) number.2
  have right := congrArg (fun w : Item => w[i]) number'.2
  have both := congrArg (fun w : Item => w[i]) equal
  simp only [openWord, BitVec.getElem_and, BitVec.getElem_or] at left right both
  revert left right both
  cases it[i] <;> cases other[i] <;> cases itemWasOpened[i] <;> simp

structure Ledger (items : Item → Option OpeningItemNode) (tasks : Finset Item)
    (held : Item → Item → Nat) : Prop where
  number : ∀ it n, items it = some n → Number it
  owner : ∀ it n, items it = some n → n.owner ∈ tasks
  opens : ∀ it n, items it = some n →
    n.openCount = BitVec.ofNat 32 (∑ t ∈ tasks, held t (openWord it))
  owned : ∀ it n, items it = some n → ∀ t ∈ tasks, held t it = if t = n.owner then 1 else 0
  gone : ∀ it, Number it → items it = none → ∀ t ∈ tasks, held t it = 0

namespace Ledger

variable {items : Item → Option OpeningItemNode} {tasks : Finset Item}
variable {held held' : Item → Item → Nat} {it t : Item} {n : OpeningItemNode}

theorem congr (ledger : Ledger items tasks held)
    (numbers : ∀ u ∈ tasks, ∀ it, Number it → held' u it = held u it)
    (words : ∀ u ∈ tasks, ∀ it n, items it = some n → held' u (openWord it) = held u (openWord it)) :
    Ledger items tasks held' := by
  refine ⟨ledger.number, ledger.owner, ?_, ?_, ?_⟩
  · intro it n found
    rw [ledger.opens it n found]
    congr 1
    exact Finset.sum_congr rfl fun u member => (words u member it n found).symm
  · intro it n found u member
    rw [numbers u member it (ledger.number it n found), ledger.owned it n found u member]
  · intro it number absent u member
    rw [numbers u member it number, ledger.gone it number absent u member]

theorem count (ledger : Ledger items tasks held) (found : items it = some n) {c : BitVec 32}
    (others : ∀ u ∈ tasks, ∀ w, ¬ w.toInt < 0 → w ≠ openWord it → held' u w = held u w)
    (counted : c = BitVec.ofNat 32 (∑ u ∈ tasks, held' u (openWord it))) :
    Ledger (Function.update items it (some { n with openCount := c })) tasks held' := by
  have number := ledger.number it n found
  have numbers : ∀ u ∈ tasks, ∀ other, Number other → held' u other = held u other :=
    fun u member other number => others u member other number.1 number.ne_openWord.symm
  refine ⟨?_, ?_, ?_, ?_, ?_⟩ <;> intro other
  · intro m found'
    by_cases same : other = it
    · exact same ▸ number
    · exact ledger.number other m (by simpa [same] using found')
  · intro m found'
    by_cases same : other = it
    · subst same
      rw [Function.update_self, Option.some.injEq] at found'
      exact found' ▸ ledger.owner other n found
    · exact ledger.owner other m (by simpa [same] using found')
  · intro m found'
    by_cases same : other = it
    · subst same
      rw [Function.update_self, Option.some.injEq] at found'
      rw [← found', ← counted]
    · rw [Function.update_of_ne same] at found'
      have number' := ledger.number other m found'
      rw [ledger.opens other m found']
      congr 1
      apply Finset.sum_congr rfl
      intro u member
      have different : openWord other ≠ openWord it :=
        fun equal => same (number'.openWord_inj number equal)
      exact (others u member (openWord other) number'.word different).symm
  · intro m found' u member
    by_cases same : other = it
    · subst same
      rw [Function.update_self, Option.some.injEq] at found'
      rw [numbers u member other number, ledger.owned other n found u member, ← found']
    · rw [Function.update_of_ne same] at found'
      rw [numbers u member other (ledger.number other m found'),
        ledger.owned other m found' u member]
  · intro number' absent u member
    have different : other ≠ it := by
      rintro rfl
      simp at absent
    rw [Function.update_of_ne different] at absent
    rw [numbers u member other number', ledger.gone other number' absent u member]

theorem sum_gain (held held' : Item → Item → Nat) (w : Item) (member : t ∈ tasks)
    (gain : ∀ u ∈ tasks, held' u w = if u = t then held u w + 1 else held u w) :
    ∑ u ∈ tasks, held' u w = ∑ u ∈ tasks, held u w + 1 := by
  calc ∑ u ∈ tasks, held' u w
      = ∑ u ∈ tasks, (held u w + if u = t then 1 else 0) := by
        apply Finset.sum_congr rfl
        intro u member'
        rw [gain u member']
        by_cases same : u = t <;> simp [same]
    _ = ∑ u ∈ tasks, held u w + 1 := by
        rw [Finset.sum_add_distrib, Finset.sum_ite_eq' tasks t, if_pos member]

theorem opened (ledger : Ledger items tasks held) (found : items it = some n) (member : t ∈ tasks)
    (gain : ∀ u ∈ tasks, ∀ w, ¬ w.toInt < 0 →
      held' u w = if u = t ∧ w = openWord it then held u w + 1 else held u w) :
    Ledger (Function.update items it (some { n with openCount := n.openCount + 1 })) tasks
      held' := by
  have number := ledger.number it n found
  apply ledger.count found
  · intro u member' w word different
    rw [gain u member' w word, if_neg (by simp [different])]
  · have more := sum_gain held held' (openWord it) member fun u member' => by
      rw [gain u member' _ number.word]
      by_cases same : u = t <;> simp [same]
    rw [more, ledger.opens it n found, BitVec.ofNat_add]
    rfl

theorem closed (ledger : Ledger items tasks held) (found : items it = some n) (member : t ∈ tasks)
    (loss : ∀ u ∈ tasks, ∀ w, ¬ w.toInt < 0 →
      held u w = if u = t ∧ w = openWord it then held' u w + 1 else held' u w) :
    Ledger (Function.update items it (some { n with openCount := n.openCount - 1 })) tasks
      held' := by
  have number := ledger.number it n found
  apply ledger.count found
  · intro u member' w word different
    rw [loss u member' w word, if_neg (by simp [different])]
  · have more := sum_gain held' held (openWord it) member fun u member' => by
      rw [loss u member' _ number.word]
      by_cases same : u = t <;> simp [same]
    rw [ledger.opens it n found, more, BitVec.ofNat_add]
    exact BitVec.add_sub_cancel _ _

theorem place (ledger : Ledger items tasks held) (number : Number it)
    {entry : Option OpeningItemNode}
    (known : ∀ m, entry = some m → m.owner ∈ tasks ∧
      m.openCount = BitVec.ofNat 32 (∑ u ∈ tasks, held u (openWord it)))
    (placed : ∀ u ∈ tasks, ∀ w, ¬ w.toInt < 0 →
      held' u w =
        if w = it then (if entry.map (·.owner) = some u then 1 else 0) else held u w) :
    Ledger (Function.update items it entry) tasks held' := by
  have words : ∀ other, Number other → ∀ u ∈ tasks,
      held' u (openWord other) = held u (openWord other) := by
    intro other number' u member
    rw [placed u member _ number'.word, if_neg number.ne_openWord]
  have sums : ∀ other, Number other →
      ∑ u ∈ tasks, held' u (openWord other) = ∑ u ∈ tasks, held u (openWord other) :=
    fun other number' => Finset.sum_congr rfl (words other number')
  refine ⟨?_, ?_, ?_, ?_, ?_⟩ <;> intro other
  · intro m found
    by_cases same : other = it
    · exact same ▸ number
    · exact ledger.number other m (by simpa [same] using found)
  · intro m found
    by_cases same : other = it
    · subst same
      exact (known m (by simpa using found)).1
    · exact ledger.owner other m (by simpa [same] using found)
  · intro m found
    by_cases same : other = it
    · subst same
      rw [sums other number, (known m (by simpa using found)).2]
    · rw [Function.update_of_ne same] at found
      rw [sums other (ledger.number other m found), ledger.opens other m found]
  · intro m found u member
    by_cases same : other = it
    · subst same
      rw [Function.update_self] at found
      rw [placed u member other number.1, if_pos rfl, found]
      by_cases owner : u = m.owner
      · simp [owner]
      · simp [owner, Ne.symm owner]
    · rw [Function.update_of_ne same] at found
      rw [placed u member other (ledger.number other m found).1, if_neg same,
        ledger.owned other m found u member]
  · intro number' absent u member
    by_cases same : other = it
    · subst same
      rw [Function.update_self] at absent
      rw [placed u member other number.1, if_pos rfl, absent]
      simp
    · rw [Function.update_of_ne same] at absent
      rw [placed u member other number'.1, if_neg same, ledger.gone other number' absent u member]

theorem join (ledger : Ledger items tasks held) (new : t ∉ tasks)
    (others : ∀ u ∈ tasks, held' u = held u) (empty : ∀ w, held' t w = 0) :
    Ledger items (insert t tasks) held' := by
  have sums : ∀ w, ∑ u ∈ insert t tasks, held' u w = ∑ u ∈ tasks, held u w := by
    intro w
    rw [Finset.sum_insert new, empty, Nat.zero_add]
    exact Finset.sum_congr rfl fun u member => by rw [others u member]
  refine ⟨ledger.number, ?_, ?_, ?_, ?_⟩ <;> intro other
  · intro m found
    exact Finset.mem_insert_of_mem (ledger.owner other m found)
  · intro m found
    rw [sums, ledger.opens other m found]
  · intro m found u member
    rcases Finset.mem_insert.mp member with rfl | old
    · have different : u ≠ m.owner := fun same => new (same ▸ ledger.owner other m found)
      rw [empty, if_neg different]
    · rw [others u old, ledger.owned other m found u old]
  · intro number absent u member
    rcases Finset.mem_insert.mp member with rfl | old
    · exact empty other
    · rw [others u old, ledger.gone other number absent u old]

theorem leave (ledger : Ledger items tasks held) (empty : ∀ w, ¬ w.toInt < 0 → held t w = 0) :
    Ledger items (tasks.erase t) held := by
  refine ⟨ledger.number, ?_, ?_, ?_, ?_⟩ <;> intro other
  · intro m found
    have number := ledger.number other m found
    have member := ledger.owner other m found
    refine Finset.mem_erase.mpr ⟨?_, member⟩
    rintro same
    have one := ledger.owned other m found m.owner member
    rw [if_pos rfl, same, empty other number.1] at one
    cases one
  · intro m found
    have number := ledger.number other m found
    have rest : ∑ u ∈ tasks.erase t, held u (openWord other) = ∑ u ∈ tasks, held u (openWord other) :=
      Finset.sum_erase tasks (empty _ number.word)
    rw [ledger.opens other m found, rest]
  · intro m found u member
    exact ledger.owned other m found u (Finset.mem_of_mem_erase member)
  · intro number absent u member
    exact ledger.gone other number absent u (Finset.mem_of_mem_erase member)

end Ledger

end Portfolio.Kernel
