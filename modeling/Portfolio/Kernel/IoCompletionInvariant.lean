import Portfolio.Kernel.IoCompletion

set_option autoImplicit false

namespace Portfolio.Kernel.Completion

open Portfolio.Lib

structure Ioreq.Sound (s : State) (r : Ioreq) : Prop where
  held : r.done = true ↔ r.place = .idle
  slow : r.place = .pending → r.quick = false
  internal : r.place = .returned → r.internal = true
  error : r.place = .returned → s.ioreqs r.error = none
  started : r.starts = r.completions + if r.done then 0 else 1
  noticed : r.completions = r.notices.length + r.silent

structure TasksSound (s : State) : Prop where
  waits : ∀ t i r, (s.tasks t).waitItem = i → s.ioreqs i = some r →
    (s.tasks t).call = .waitIo i ∧ (s.tasks t).asleep = true ∧
      r.owner = t ∧ r.done = false ∧ r.quick = false ∧ r.callBack = false
  asleep : ∀ t i, (s.tasks t).call = .waitIo i → (s.tasks t).asleep = true →
    (s.tasks t).waitItem = i
  aborts : ∀ i r a, s.ioreqs i = some r → r.sigItem = some a → (s.tasks a).call = .abortIo i
  known : ∀ t i, (s.tasks t).call = .waitIo i → s.ioreqs i ≠ none
  noItem : s.ioreqs (-1) = none

structure Sound (s : State) : Prop where
  ioreqs : ∀ i r, s.ioreqs i = some r → r.Sound s
  tasks : TasksSound s

namespace State

variable {s : State} {i j t u : Item} {f g : Ioreq → Ioreq} {h : IoTask → IoTask} {r : Ioreq}

@[simp] theorem modify_tasks : (s.modify i f).tasks = s.tasks := rfl
@[simp] theorem modifyTask_ioreqs : (s.modifyTask t h).ioreqs = s.ioreqs := rfl

@[simp] theorem modify_ioreqs :
    (s.modify i f).ioreqs j = if j = i then (s.ioreqs i).map f else s.ioreqs j := by
  by_cases same : j = i
  · subst same
    simp [modify]
  · simp [modify, same]

@[simp] theorem modifyTask_tasks :
    (s.modifyTask t h).tasks u = if u = t then h (s.tasks t) else s.tasks u := by
  by_cases same : u = t
  · subst same
    simp [modifyTask]
  · simp [modifyTask, same]

theorem modify_none : (s.modify i f).ioreqs j = none ↔ s.ioreqs j = none := by
  rw [modify_ioreqs]
  by_cases same : j = i
  · subst same
    simp
  · simp [same]

theorem modify_absent (absent : s.ioreqs i = none) : s.modify i f = s := by
  have same : Function.update s.ioreqs i ((s.ioreqs i).map f) = s.ioreqs := by
    rw [absent]
    exact Function.update_eq_self_iff.mpr absent.symm
  rw [modify, same]

theorem modify_modify : (s.modify i f).modify i g = s.modify i (g ∘ f) := by
  simp [modify, Function.update_idem, Option.map_map]

theorem modifyTask_modifyTask {h' : IoTask → IoTask} :
    (s.modifyTask t h).modifyTask t h' = s.modifyTask t (h' ∘ h) := by
  simp [modifyTask, Function.update_idem]

theorem modify_modifyTask : (s.modify i f).modifyTask t h = (s.modifyTask t h).modify i f := rfl

theorem newReadyTask_call : ((s.newReadyTask t).tasks u).call = (s.tasks u).call := by
  rw [newReadyTask, modifyTask_tasks]
  split
  · next same => rw [same]
  · rfl

theorem wakeAborter_call {sigItem : Option Item} :
    ((s.wakeAborter sigItem).tasks u).call = (s.tasks u).call := by
  cases sigItem with
  | none => rfl
  | some a => exact newReadyTask_call

theorem notifyOwner_call : ((s.notifyOwner i r).tasks u).call = (s.tasks u).call := by
  rw [notifyOwner]
  split
  · rw [modify_tasks, newReadyTask_call, modifyTask_tasks]
    split
    · next same => rw [same]
    · rfl
  · split
    · split <;> rfl
    · rfl

theorem completeAgain_call {newior : Option (Item × Bool)} :
    ((s.completeAgain i newior).tasks u).call = (s.tasks u).call := by
  rw [completeAgain]
  split
  · rfl
  · simp only
    split
    · split <;> rfl
    · split
      · rfl
      · rw [wakeAborter_call, notifyOwner_call]
        rfl

theorem internalAbortIo_call {ends : Bool} {error : Err} {newior : Option (Item × Bool)} :
    ((s.internalAbortIo i ends error newior).tasks u).call = (s.tasks u).call := by
  rw [internalAbortIo]
  split
  · rw [deviceCompletes]
    split
    · split
      · rw [internalCompleteIo]
        split
        · split
          · rfl
          · exact completeAgain_call
        · rfl
      · rfl
    · rfl
  · rfl

end State

namespace Ioreq.Sound

variable {s s' : State} {r : Ioreq}

theorem congr (sound : r.Sound s) (known : ∀ j, s'.ioreqs j = none ↔ s.ioreqs j = none) :
    r.Sound s' :=
  { sound with error := fun returned => (known _).mpr (sound.error returned) }

end Ioreq.Sound

section Modify

variable {s : State} {i t : Item} {f : Ioreq → Ioreq} {h : IoTask → IoTask} {r : Ioreq}

theorem TasksSound.modify (tasks : TasksSound s) (found : s.ioreqs i = some r)
    (owner : (f r).owner = r.owner)
    (waiter : ∀ t, (s.tasks t).waitItem = i →
      (f r).done = false ∧ (f r).quick = false ∧ (f r).callBack = false)
    (aborter : ∀ a, (f r).sigItem = some a → (s.tasks a).call = .abortIo i) :
    TasksSound (s.modify i f) where
  waits u j r' waits found' := by
    rw [State.modify_ioreqs] at found'
    split at found'
    · next same =>
      subst same
      rw [found] at found'
      cases found'
      obtain ⟨call, asleep, owns, -⟩ := tasks.waits u j r waits found
      exact ⟨call, asleep, owner.trans owns, waiter u waits⟩
    · exact tasks.waits u j r' waits found'
  asleep := tasks.asleep
  aborts j r' a found' sig := by
    rw [State.modify_ioreqs] at found'
    split at found'
    · next same =>
      subst same
      rw [found] at found'
      cases found'
      exact aborter a sig
    · exact tasks.aborts j r' a found' sig
  known u j call := mt State.modify_none.mp (tasks.known u j call)
  noItem := State.modify_none.mpr tasks.noItem

theorem modify_sound (tasks : TasksSound (s.modify i f)) (found : s.ioreqs i = some r)
    (others : ∀ j r, j ≠ i → s.ioreqs j = some r → r.Sound s) (fine : (f r).Sound s) :
    Sound (s.modify i f) where
  ioreqs j r' found' := by
    rw [State.modify_ioreqs] at found'
    split at found'
    · next same =>
      subst same
      rw [found] at found'
      cases found'
      exact fine.congr fun _ => State.modify_none
    · next other => exact (others j r' other found').congr fun _ => State.modify_none
  tasks := tasks

theorem TasksSound.modifyTask (tasks : TasksSound s)
    (unknown : s.ioreqs (h (s.tasks t)).waitItem = none)
    (call : ∀ i, (h (s.tasks t)).call = .waitIo i →
      (h (s.tasks t)).asleep = false ∧ s.ioreqs i ≠ none)
    (aborts : ∀ i r, s.ioreqs i = some r → r.sigItem = some t →
      (h (s.tasks t)).call = .abortIo i) : TasksSound (s.modifyTask t h) where
  waits u j r waits found := by
    rw [State.modifyTask_tasks] at waits ⊢
    split at waits
    · next same =>
      subst waits
      rw [State.modifyTask_ioreqs, unknown] at found
      cases found
    · next other =>
      simp only [other, if_false]
      exact tasks.waits u j r waits found
  asleep u j waits sleeps := by
    rw [State.modifyTask_tasks] at waits sleeps ⊢
    split at waits
    · next same =>
      simp only [same, if_true] at sleeps
      rw [(call j waits).1] at sleeps
      cases sleeps
    · next other =>
      simp only [other, if_false] at sleeps ⊢
      exact tasks.asleep u j waits sleeps
  aborts j r a found sig := by
    rw [State.modifyTask_tasks]
    split
    · next same =>
      subst same
      exact aborts j r found sig
    · exact tasks.aborts j r a found sig
  known u j waits := by
    rw [State.modifyTask_tasks] at waits
    split at waits
    · exact (call j waits).2
    · exact tasks.known u j waits
  noItem := tasks.noItem

theorem Sound.modifyTask (sound : Sound s) (tasks : TasksSound (s.modifyTask t h)) :
    Sound (s.modifyTask t h) :=
  ⟨fun i r found => (sound.ioreqs i r found).congr fun _ => Iff.rfl, tasks⟩

end Modify

section Complete

variable {s : State} {i t : Item} {f : Ioreq → Ioreq} {r : Ioreq} {newior : Option (Item × Bool)}

theorem newReadyTask_sound (sound : Sound s) (unknown : s.ioreqs (s.tasks t).waitItem = none) :
    Sound (s.newReadyTask t) := by
  refine sound.modifyTask (sound.tasks.modifyTask unknown ?_ ?_)
  · exact fun i call => ⟨rfl, sound.tasks.known t i call⟩
  · exact fun i r found sig => sound.tasks.aborts i r t found sig

theorem start_sound {quick : Bool} (sound : Sound s) (found : s.ioreqs i = some r)
    (done : r.done = true) (owner : (f r).owner = r.owner) (sigItem : (f r).sigItem = r.sigItem)
    (history : (f r).starts = r.starts ∧ (f r).completions = r.completions ∧
      (f r).notices = r.notices ∧ (f r).silent = r.silent) :
    Sound (s.modify i fun r => (f r).sendIo quick) := by
  have fine := sound.ioreqs i r found
  obtain ⟨starts, completions, notices, silent⟩ := history
  have tasks : TasksSound (s.modify i fun r => (f r).sendIo quick) := by
    refine sound.tasks.modify found owner (fun t waits => ?_) fun a sig => ?_
    · obtain ⟨-, -, -, running, -⟩ := sound.tasks.waits t i r waits found
      rw [done] at running
      cases running
    · exact sound.tasks.aborts i r a found (sigItem.symm.trans sig)
  refine modify_sound tasks found (fun j r _ found => sound.ioreqs j r found) ?_
  refine ⟨by simp [Ioreq.sendIo], by simp [Ioreq.sendIo], by simp [Ioreq.sendIo],
    by simp [Ioreq.sendIo], ?_, ?_⟩
  · have started := fine.started
    simp only [done, if_true] at started
    simp [Ioreq.sendIo, starts, completions, started]
  · have noticed := fine.noticed
    simp only [Ioreq.sendIo, completions, notices, silent]
    exact noticed

structure Ending (s : State) (i : Item) (r : Ioreq) : Prop where
  tasks : TasksSound s
  found : s.ioreqs i = some r
  others : ∀ j r, j ≠ i → s.ioreqs j = some r → r.Sound s
  running : r.done = false
  started : r.starts = r.completions + 1
  noticed : r.completions = r.notices.length + r.silent
  error : s.ioreqs r.error = none

def Idle (s : State) (i : Item) (newior : Option (Item × Bool)) : Prop :=
  ∀ n quick r, newior = some (n, quick) → n ≠ i → s.ioreqs n = some r → r.done = true

theorem Ending.finish (ending : Ending s i r) (noWaiter : ∀ t, (s.tasks t).waitItem ≠ i)
    (owner : (f r).owner = r.owner) (sigItem : (f r).sigItem = r.sigItem)
    (done : (f r).done = true) (place : (f r).place = .idle)
    (history : (f r).starts = r.starts ∧ (f r).completions = r.completions + 1 ∧
      (f r).notices.length + (f r).silent = r.notices.length + r.silent + 1) :
    Sound (s.modify i f) := by
  obtain ⟨starts, completions, notices⟩ := history
  have tasks : TasksSound (s.modify i f) := by
    refine ending.tasks.modify ending.found owner (fun t waits => ?_) fun a sig => ?_
    · exact absurd waits (noWaiter t)
    · exact ending.tasks.aborts i r a ending.found (sigItem.symm.trans sig)
  refine modify_sound tasks ending.found ending.others ?_
  refine ⟨by simp [done, place], by simp [place], by simp [place], by simp [place], ?_, ?_⟩
  · rw [starts, completions, done, ending.started]
    rfl
  · rw [completions, notices, ending.noticed]

theorem Ending.wakeOwner (ending : Ending s i r) :
    Ending (s.modifyTask r.owner fun t => { t with waitItem := r.error, asleep := false }) i r ∧
      ∀ t, ((s.modifyTask r.owner fun t =>
        { t with waitItem := r.error, asleep := false }).tasks t).waitItem ≠ i := by
  have tasks := ending.tasks.modifyTask (t := r.owner)
    (h := fun t => { t with waitItem := r.error, asleep := false }) ending.error
    (fun i call => ⟨rfl, ending.tasks.known _ i call⟩)
    (fun i r' found sig => ending.tasks.aborts i r' _ found sig)
  refine ⟨{ ending with tasks := tasks, others := ?_ }, ?_⟩
  · exact fun j r other found => (ending.others j r other found).congr fun _ => Iff.rfl
  · intro t waits
    rw [State.modifyTask_tasks] at waits
    split at waits
    · have known := ending.error
      rw [show r.error = i from waits, ending.found] at known
      cases known
    · next other =>
      obtain ⟨-, -, owns, -⟩ := ending.tasks.waits t i r waits ending.found
      exact other owns.symm

theorem wakeAborter_sound {sigItem : Option Item} (sound : Sound s)
    (aborter : ∀ a, sigItem = some a → (s.tasks a).call = .abortIo i) :
    Sound (s.wakeAborter sigItem) := by
  cases sigItem with
  | none => exact sound
  | some a =>
    refine newReadyTask_sound sound ?_
    cases unknown : s.ioreqs (s.tasks a).waitItem with
    | none => rfl
    | some r =>
      obtain ⟨call, -⟩ := sound.tasks.waits a _ r rfl unknown
      rw [aborter a rfl] at call
      cases call

theorem Ending.notifyOwner {waited : Bool} (ending : Ending s i r) (callBack : r.callBack = false)
    (quick : r.quick = false) (same : waited = decide ((s.tasks r.owner).waitItem = i)) :
    Sound ((s.modify i (·.finish waited)).notifyOwner i r) := by
  rw [State.notifyOwner, State.modify_tasks]
  split
  · next waits =>
    obtain ⟨ending', noWaiter⟩ := ending.wakeOwner
    have told : r.tellsNothing waited = false := by
      simp [Ioreq.tellsNothing, quick, same, waits]
    have woken : (((s.modify i (·.finish waited)).modifyTask r.owner fun t =>
          { t with waitItem := r.error }).newReadyTask r.owner).modify i (·.notify .wakeUp) =
        (s.modifyTask r.owner fun t => { t with waitItem := r.error, asleep := false }).modify i
          fun r => (r.finish waited).notify .wakeUp := by
      rw [State.newReadyTask, State.modifyTask_modifyTask, State.modify_modifyTask,
        State.modify_modify]
      rfl
    rw [woken]
    refine ending'.finish noWaiter rfl rfl rfl rfl ⟨rfl, rfl, ?_⟩
    simp [Ioreq.notify, Ioreq.finish, told]
    omega
  · next waits =>
    have noWaiter : ∀ t, (s.tasks t).waitItem ≠ i := by
      intro t waits'
      obtain ⟨-, -, owns, -⟩ := ending.tasks.waits t i r waits' ending.found
      exact waits (owns.symm ▸ waits')
    have idle : waited = false := by simp [same, waits]
    split
    · next messageBased =>
      split
      · next replied present =>
        have told : r.tellsNothing waited = false := by
          simp [Ioreq.tellsNothing, quick, present]
        rw [State.modify_modify]
        refine ending.finish noWaiter rfl rfl rfl rfl ⟨rfl, rfl, ?_⟩
        simp [Ioreq.notify, Ioreq.finish, told]
        omega
      · next gone =>
        have told : r.tellsNothing waited = true := by
          simp [Ioreq.tellsNothing, callBack, quick, idle, messageBased, gone]
        refine ending.finish noWaiter rfl rfl rfl rfl ⟨rfl, rfl, ?_⟩
        simp [Ioreq.finish, told]
        omega
    · next signal =>
      have told : r.tellsNothing waited = false := by
        simp [Ioreq.tellsNothing, quick, signal]
      rw [State.modify_modify]
      refine ending.finish noWaiter rfl rfl rfl rfl ⟨rfl, rfl, ?_⟩
      simp [Ioreq.notify, Ioreq.finish, told]
      omega

theorem completeAgain_sound (ending : Ending s i r) (idle : Idle s i newior) :
    Sound (s.completeAgain i newior) := by
  have noWaiter : r.quick = true ∨ r.callBack = true → ∀ t, (s.tasks t).waitItem ≠ i := by
    intro untold t waits
    obtain ⟨-, -, -, -, quick, callBack⟩ := ending.tasks.waits t i r waits ending.found
    rw [quick, callBack] at untold
    simp at untold
  rw [State.completeAgain, ending.found]
  simp only
  split
  · next callBack =>
    rw [State.modify_modify]
    have called : Sound (s.modify i ((·.notify .callBack) ∘
        (·.finish (decide ((s.tasks r.owner).waitItem = i))))) := by
      refine ending.finish (noWaiter (Or.inr callBack)) rfl rfl rfl rfl ⟨rfl, rfl, ?_⟩
      simp [Ioreq.notify, Ioreq.finish, Ioreq.tellsNothing, callBack]
      omega
    split
    · next n quick =>
      cases found : (s.modify i ((·.notify .callBack) ∘
          (·.finish (decide ((s.tasks r.owner).waitItem = i))))).ioreqs n with
      | none =>
        rw [State.modify_absent found]
        exact called
      | some rn =>
        refine start_sound called found ?_ rfl rfl ⟨rfl, rfl, rfl, rfl⟩
        rw [State.modify_ioreqs] at found
        split at found
        · rw [ending.found] at found
          cases found
          rfl
        · next other => exact idle n quick rn rfl other found
    · exact called
  · next callBack =>
    split
    · next quick =>
      refine ending.finish (noWaiter (Or.inl quick)) rfl rfl rfl rfl ⟨rfl, rfl, ?_⟩
      simp [Ioreq.finish, Ioreq.tellsNothing, callBack, quick]
      omega
    · next quick =>
      rw [Bool.not_eq_true] at callBack quick
      have told := ending.notifyOwner callBack quick rfl
      refine wakeAborter_sound (i := i) told fun a sig => ?_
      rw [State.notifyOwner_call]
      exact ending.tasks.aborts i r a ending.found sig

end Complete

end Portfolio.Kernel.Completion
