import Portfolio.Kernel.ItemCalls
import Portfolio.Lib.Run

set_option autoImplicit false

/-!
# The owners of tasks

`internalSetItemOwner` (`item.c`) for a task, with `internalSetTaskOwner`, `Murder` and what is left of a
task's death (`task.c`) of the owner links. A task that is freed owns no tasks any more:
`FreeResources` deletes them first, and each of them dies as a step of its own.
-/

namespace Portfolio.Kernel

open Portfolio.Lib Relation

structure OwnedTask where
  owner : Item
  threadTask : Option Item
  privileged : Bool
  exiting : Bool
  deriving DecidableEq

structure TaskOwners where
  tasks : Item → Option OwnedTask
  live : List Item

namespace TaskOwners

def CANTSETOWNER : Err := makeKErr 2 1 17

/-- The loop that looks for the task above its new owner. It has no result where it does not end in
`fuel` turns, or looks at an owner that is not there. -/
def ownedBelow (s : TaskOwners) (ti : Item) : Nat → Item → Option Bool
  | 0, _ => none
  | fuel + 1, towner =>
    match s.tasks towner with
    | none => none
    | some task =>
      if task.owner = ti then some true
      else if task.owner = 0 then some false
      else s.ownedBelow ti fuel task.owner

def internalSetTaskOwner (s : TaskOwners) (fuel : Nat) (ti : Item) (t nt : OwnedTask) (newOwner : Item) : Option Err :=
  if t.threadTask.any (fun pt => pt ≠ newOwner ∧ nt.threadTask ≠ some pt) then some CANTSETOWNER
  else if t.threadTask.isSome ∧ ti = newOwner then some CANTSETOWNER
  else (s.ownedBelow ti fuel newOwner).map fun below => if below then CANTSETOWNER else 0

def enoughPriv (it : Item) (n : OwnedTask) (current : Item) (t : OwnedTask) : Bool :=
  current = n.owner ∨ t.privileged ∨ current = it

def setOwner (s : TaskOwners) (it newOwner : Item) : TaskOwners :=
  { s with tasks := Function.update s.tasks it ((s.tasks it).map fun n => { n with owner := newOwner }) }

def internalSetItemOwner (s : TaskOwners) (fuel : Nat) (it newOwner current : Item) (slot : Bool) :
    Option (TaskOwners × Err) :=
  match s.tasks newOwner, s.tasks it, s.tasks current with
  | some newOwnerp, some n, some t =>
    if !enoughPriv it n current t then some (s, BADPRIV)
    else if !slot then some (s, RSRCTBLOVRFLW)
    else (s.internalSetTaskOwner fuel it n newOwnerp newOwner).map fun ret =>
      if failed ret then (s, ret) else (s.setOwner it newOwner, ret)
  | _, _, _ => some (s, BADITEM)

def murder (s : TaskOwners) (t : Item) : TaskOwners :=
  { s with tasks := Function.update s.tasks t ((s.tasks t).map fun n => { n with exiting := true }) }

inductive OwnerOp where
  | create (task current : Item) (threadTask : Option Item) (privileged : Bool)
  | murder (task : Item)
  | die (task : Item)
  | setOwner (it newOwner current : Item) (slot : Bool)

def ownsTask (s : TaskOwners) (task : Item) : Bool := s.live.any fun i => (s.tasks i).any (·.owner = task)

def step (fuel : Nat) (s : TaskOwners) : OwnerOp → TaskOwners
  | .create task current threadTask privileged =>
    if task ≠ 0 ∧ s.tasks task = none ∧ (s.tasks current).isSome then
      { tasks := Function.update s.tasks task (some ⟨current, threadTask, privileged, false⟩)
        live := task :: s.live }
    else s
  | .murder task => s.murder task
  | .die task =>
    if s.ownsTask task then s
    else
      { tasks := Function.update s.tasks task none
        live := s.live.filter fun i => !decide (i = task) }
  | .setOwner it newOwner current slot =>
    ((s.internalSetItemOwner fuel it newOwner current slot).map Prod.fst).getD s

def start (root : Item) : TaskOwners where
  tasks := Function.update (fun _ => none) root (some ⟨0, none, true, false⟩)
  live := [root]

def Owned (s : TaskOwners) (i o : Item) : Prop := ∃ n, s.tasks i = some n ∧ n.owner = o

inductive Reaches (s : TaskOwners) (root : Item) : Item → Prop
  | root : s.Owned root 0 → Reaches s root root
  | owned {i o : Item} : s.Owned i o → o ≠ 0 → Reaches s root o → Reaches s root i

structure Forest (s : TaskOwners) (root : Item) : Prop where
  reaches : ∀ i, (s.tasks i).isSome → ReflTransGen s.Owned i root
  acyclic : ∀ i, (s.tasks i).isSome → ¬TransGen s.Owned i i
  returns : ∀ it newOwner current slot, ∃ least, ∀ fuel, least ≤ fuel →
    (s.internalSetItemOwner fuel it newOwner current slot).isSome

def OwnsItself (s : TaskOwners) : OwnerOp → Prop
  | .setOwner it newOwner current slot => it = newOwner ∧ slot = true ∧
    ∃ n t, s.tasks it = some n ∧ s.tasks current = some t ∧ n.threadTask = none ∧
      enoughPriv it n current t = true
  | _ => False

variable {s s' : TaskOwners} {root i o ti : Item}

theorem Owned.unique {o' : Item} (owned : s.Owned i o) (other : s.Owned i o') : o = o' := by
  obtain ⟨n, found, rfl⟩ := owned
  obtain ⟨n', found', rfl⟩ := other
  rw [Option.some.inj (found.symm.trans found')]

structure Linked (s : TaskOwners) (root : Item) : Prop where
  reaches : ∀ i, (s.tasks i).isSome → s.Reaches root i
  nobody : s.tasks 0 = none
  listed : ∀ i, (s.tasks i).isSome → i ∈ s.live

theorem Linked.nonzero (linked : s.Linked root) (live : (s.tasks i).isSome) : i ≠ 0 := by
  rintro rfl
  rw [linked.nobody] at live
  cases live

theorem Reaches.trans (reaches : s.Reaches root i) : ReflTransGen s.Owned i root := by
  induction reaches with
  | root => exact .refl
  | owned owned _ _ ih => exact .head owned ih

theorem Reaches.acyclic (nobody : s.tasks 0 = none) (reaches : s.Reaches root i) : ¬TransGen s.Owned i i := by
  induction reaches with
  | root ownerless =>
    intro cycle
    obtain ⟨o, first, rest⟩ := TransGen.head'_iff.mp cycle
    obtain rfl := first.unique ownerless
    rcases ReflTransGen.cases_head rest with rfl | ⟨_, ⟨n, found, -⟩, -⟩
    · obtain ⟨n, found, -⟩ := ownerless
      cases nobody.symm.trans found
    · cases nobody.symm.trans found
  | @owned i o owned _ _ ih =>
    intro cycle
    obtain ⟨o', first, rest⟩ := TransGen.head'_iff.mp cycle
    obtain rfl := first.unique owned
    exact ih (TransGen.tail' rest owned)

theorem Reaches.ownedBelow_returns (ti : Item) (reaches : s.Reaches root i) :
    ∃ least answer, ∀ fuel, least ≤ fuel → s.ownedBelow ti fuel i = some answer := by
  induction reaches with
  | root ownerless =>
    obtain ⟨n, found, owner⟩ := ownerless
    refine ⟨1, decide (0 = ti), fun fuel enough => ?_⟩
    obtain ⟨fuel, rfl⟩ := Nat.exists_eq_add_of_le' enough
    rw [ownedBelow, found]
    by_cases same : 0 = ti
    · simp only [owner, if_pos same, decide_eq_true same]
    · simp only [owner, if_neg same, decide_eq_false same, if_true]
  | owned owned real _ ih =>
    obtain ⟨least, answer, rest⟩ := ih
    obtain ⟨n, found, rfl⟩ := owned
    by_cases same : n.owner = ti
    · refine ⟨1, true, fun fuel enough => ?_⟩
      obtain ⟨fuel, rfl⟩ := Nat.exists_eq_add_of_le' enough
      simp [ownedBelow, found, same]
    · refine ⟨least + 1, answer, fun fuel enough => ?_⟩
      obtain ⟨fuel, rfl⟩ := Nat.exists_eq_add_of_le' (Nat.le_of_add_left_le enough)
      simp only [ownedBelow, found, if_neg same, if_neg real]
      exact rest _ (by omega)

theorem Reaches.avoids (reaches : s.Reaches root i) {fuel : Nat} (below : s.ownedBelow ti fuel i = some false)
    (other : i ≠ ti) (same : ∀ j, j ≠ ti → s'.tasks j = s.tasks j) : s'.Reaches root i := by
  induction reaches generalizing fuel with
  | root ownerless =>
    obtain ⟨n, found, owner⟩ := ownerless
    exact .root ⟨n, (same _ other).trans found, owner⟩
  | owned owned real _ ih =>
    obtain ⟨n, found, rfl⟩ := owned
    cases fuel with
    | zero => cases below
    | succ fuel =>
      rw [ownedBelow, found] at below
      dsimp only at below
      split at below
      · cases below
      · next ne =>
        exact .owned ⟨n, (same _ other).trans found, rfl⟩ real (ih below ne)

theorem Reaches.relink (reaches : s.Reaches root i) (same : ∀ j, j ≠ ti → s'.tasks j = s.tasks j)
    (new : s'.Reaches root ti) : s'.Reaches root i := by
  induction reaches with
  | root ownerless =>
    by_cases eq : root = ti
    · exact eq ▸ new
    · obtain ⟨n, found, owner⟩ := ownerless
      exact .root ⟨n, (same _ eq).trans found, owner⟩
  | @owned i o owned real _ ih =>
    by_cases eq : i = ti
    · exact eq ▸ new
    · obtain ⟨n, found, owner⟩ := owned
      exact .owned ⟨n, (same _ eq).trans found, owner⟩ real ih

theorem Reaches.congr (reaches : s.Reaches root i) (same : ∀ i o, s.Owned i o → s'.Owned i o) :
    s'.Reaches root i := by
  induction reaches with
  | root ownerless => exact .root (same _ _ ownerless)
  | owned owned real _ ih => exact .owned (same _ _ owned) real ih

theorem Linked.forest (linked : s.Linked root) : s.Forest root := by
  refine ⟨fun i live => (linked.reaches i live).trans, fun i live => (linked.reaches i live).acyclic linked.nobody,
    fun it newOwner current slot => ?_⟩
  unfold internalSetItemOwner
  cases new : s.tasks newOwner with
  | none => exact ⟨0, fun _ _ => rfl⟩
  | some nt =>
    obtain ⟨least, answer, returns⟩ := (linked.reaches newOwner (by rw [new]; rfl)).ownedBelow_returns it
    refine ⟨least, fun fuel enough => ?_⟩
    unfold internalSetTaskOwner
    rw [returns fuel enough]
    cases s.tasks it with
    | none => rfl
    | some n =>
      cases s.tasks current with
      | none => rfl
      | some t =>
        dsimp only
        split_ifs <;> rfl

theorem internalSetItemOwner_cases {fuel : Nat} {it newOwner current : Item} {slot : Bool} {r : TaskOwners × Err}
    (returns : s.internalSetItemOwner fuel it newOwner current slot = some r) :
    failed r.2 = true ∧ r.1 = s ∨ failed r.2 = false ∧ r.1 = s.setOwner it newOwner ∧ slot = true ∧
      s.ownedBelow it fuel newOwner = some false ∧ (s.tasks newOwner).isSome ∧
      ∃ n t, s.tasks it = some n ∧ s.tasks current = some t ∧ enoughPriv it n current t = true ∧
        (n.threadTask = none ∨ it ≠ newOwner) := by
  have item : failed BADITEM = true := by decide
  have priv : failed BADPRIV = true := by decide
  have full : failed RSRCTBLOVRFLW = true := by decide
  have refused : failed CANTSETOWNER = true := by decide
  have done : failed 0 = false := by decide
  unfold internalSetItemOwner at returns
  cases new : s.tasks newOwner with
  | none =>
    rw [new] at returns
    cases returns
    exact .inl ⟨item, rfl⟩
  | some nt =>
    cases old : s.tasks it with
    | none =>
      rw [new, old] at returns
      cases returns
      exact .inl ⟨item, rfl⟩
    | some n =>
      cases caller : s.tasks current with
      | none =>
        rw [new, old, caller] at returns
        cases returns
        exact .inl ⟨item, rfl⟩
      | some t =>
        rw [new, old, caller] at returns
        dsimp only at returns
        split at returns
        · cases returns
          exact .inl ⟨priv, rfl⟩
        · next may =>
          split at returns
          · cases returns
            exact .inl ⟨full, rfl⟩
          · next room =>
            obtain ⟨ret, call, rfl⟩ := Option.map_eq_some_iff.mp returns
            unfold internalSetTaskOwner at call
            split at call
            · cases call
              exact .inl ⟨by rw [if_pos refused]; exact refused, by rw [if_pos refused]⟩
            · split at call
              · cases call
                exact .inl ⟨by rw [if_pos refused]; exact refused, by rw [if_pos refused]⟩
              · next thread =>
                obtain ⟨below, loop, rfl⟩ := Option.map_eq_some_iff.mp call
                cases below with
                | true =>
                  rw [if_pos rfl, if_pos refused]
                  exact .inl ⟨refused, rfl⟩
                | false =>
                  rw [if_neg Bool.false_ne_true, if_neg (by rw [done]; exact Bool.false_ne_true)]
                  refine .inr ⟨done, rfl, by simpa using room, loop, rfl, n, t, rfl, rfl, by simpa using may, ?_⟩
                  by_contra! own
                  exact thread ⟨Option.isSome_iff_ne_none.mpr own.1, own.2⟩

theorem setOwner_owned {n : OwnedTask} (found : s.tasks ti = some n) : (s.setOwner ti o).Owned ti o :=
  ⟨{ n with owner := o }, by simp [setOwner, found], rfl⟩

theorem Linked.setOwner (linked : s.Linked root) {it newOwner : Item} {fuel : Nat}
    (below : s.ownedBelow it fuel newOwner = some false) (other : it ≠ newOwner)
    (isTask : (s.tasks it).isSome) (real : (s.tasks newOwner).isSome) : (s.setOwner it newOwner).Linked root := by
  have same (j : Item) (ne : j ≠ it) : (s.setOwner it newOwner).tasks j = s.tasks j := Function.update_of_ne ne ..
  have live (j : Item) : ((s.setOwner it newOwner).tasks j).isSome = (s.tasks j).isSome := by
    by_cases eq : j = it
    · simp [eq, TaskOwners.setOwner]
    · rw [same j eq]
  have owner := (linked.reaches newOwner real).avoids below other.symm same
  have nonzero : newOwner ≠ 0 := linked.nonzero real
  obtain ⟨n, found⟩ := Option.isSome_iff_exists.mp isTask
  have new : (s.setOwner it newOwner).Reaches root it := .owned (setOwner_owned found) nonzero owner
  refine ⟨fun i isLive => (linked.reaches i (live i ▸ isLive)).relink same new, ?_, ?_⟩
  · rw [← Option.not_isSome_iff_eq_none, live, linked.nobody]
    simp
  · exact fun i isLive => linked.listed i (live i ▸ isLive)

theorem Linked.step (linked : s.Linked root) (fuel : Nat) (op : OwnerOp) (proper : ¬s.OwnsItself op) :
    (s.step fuel op).Linked root := by
  cases op with
  | create task current threadTask privileged =>
    rw [TaskOwners.step]
    split
    · next fits =>
      obtain ⟨real, free, caller⟩ := fits
      have kept (i o : Item) (owned : s.Owned i o) : TaskOwners.Owned
          ⟨Function.update s.tasks task (some ⟨current, threadTask, privileged, false⟩), task :: s.live⟩ i o := by
        obtain ⟨n, found, owner⟩ := owned
        have ne : i ≠ task := fun eq => by simp [← eq, found] at free
        exact ⟨n, (Function.update_of_ne ne ..).trans found, owner⟩
      have nonzero : current ≠ 0 := linked.nonzero caller
      refine ⟨fun i isLive => ?_, (Function.update_of_ne real.symm ..).trans linked.nobody, fun i isLive => ?_⟩
      · by_cases eq : i = task
        · subst eq
          exact .owned ⟨_, Function.update_self .., rfl⟩ nonzero ((linked.reaches _ caller).congr kept)
        · exact (linked.reaches i (by simpa [eq] using isLive)).congr kept
      · by_cases eq : i = task
        · exact eq ▸ List.mem_cons_self
        · exact List.mem_cons_of_mem _ (linked.listed i (by simpa [eq] using isLive))
    · exact linked
  | murder task =>
    have live (i : Item) : ((s.murder task).tasks i).isSome = (s.tasks i).isSome := by
      by_cases eq : i = task <;> simp [murder, eq]
    have kept (i o : Item) (owned : s.Owned i o) : (s.murder task).Owned i o := by
      obtain ⟨n, found, owner⟩ := owned
      by_cases eq : i = task
      · exact ⟨{ n with exiting := true }, by simp [murder, ← eq, found], owner⟩
      · exact ⟨n, by simp [murder, eq, found], owner⟩
    refine ⟨fun i isLive => (linked.reaches i (live i ▸ isLive)).congr kept, ?_, fun i isLive => ?_⟩
    · rw [TaskOwners.step, ← Option.not_isSome_iff_eq_none, live, linked.nobody]
      simp
    · exact linked.listed i (live i ▸ isLive)
  | die task =>
    rw [TaskOwners.step]
    split
    · exact linked
    · next free =>
      have unowned (i : Item) : ¬s.Owned i task := by
        rintro ⟨n, found, owner⟩
        refine free (List.any_eq_true.mpr ⟨i, linked.listed i (by rw [found]; rfl), ?_⟩)
        simp [found, owner]
      refine ⟨fun i isLive => ?_, ?_, fun i isLive => ?_⟩
      · have ne : i ≠ task := fun eq => by simp [eq] at isLive
        have reaches := linked.reaches i (by simpa [ne] using isLive)
        clear isLive
        induction reaches with
        | root ownerless =>
          obtain ⟨n, found, owner⟩ := ownerless
          exact .root ⟨n, (Function.update_of_ne ne ..).trans found, owner⟩
        | @owned i o owned real _ ih =>
          obtain ⟨n, found, owner⟩ := owned
          exact .owned ⟨n, (Function.update_of_ne ne ..).trans found, owner⟩ real
            (ih fun eq => unowned i ⟨n, found, owner.trans eq⟩)
      · by_cases eq : 0 = task
        · subst eq
          exact Function.update_self (0 : Item) (none : Option OwnedTask) s.tasks
        · exact (Function.update_of_ne eq ..).trans linked.nobody
      · have ne : i ≠ task := fun eq => by simp [eq] at isLive
        exact List.mem_filter.mpr ⟨linked.listed i (by simpa [ne] using isLive), by simpa using ne⟩
  | setOwner it newOwner current slot =>
    rw [TaskOwners.step]
    cases returns : s.internalSetItemOwner fuel it newOwner current slot with
    | none => exact linked
    | some r =>
      rcases internalSetItemOwner_cases returns with
        ⟨-, unchanged⟩ | ⟨-, moved, room, below, real, n, t, found, caller, may, thread⟩
      · simpa [unchanged] using linked
      · have other : it ≠ newOwner := fun eq =>
          proper ⟨eq, room, n, t, found, caller, thread.resolve_right fun ne => ne eq, may⟩
        simpa [moved] using linked.setOwner below other (by rw [found]; rfl) real

theorem linked_start (real : root ≠ 0) : (start root).Linked root := by
  have only (i : Item) (isLive : ((start root).tasks i).isSome) : i = root := by
    by_contra ne
    simp [start, ne] at isLive
  have first : (start root).tasks root = some ⟨0, none, true, false⟩ := by simp [start]
  have none : (start root).tasks 0 = none := by
    by_contra some
    exact real (only 0 (Option.isSome_iff_ne_none.mpr some)).symm
  refine ⟨fun i isLive => ?_, none, fun i isLive => by simp [only i isLive, start]⟩
  rw [only i isLive]
  exact .root ⟨_, first, rfl⟩

end TaskOwners

end Portfolio.Kernel
