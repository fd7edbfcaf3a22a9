import Portfolio.Kernel.IoCompletionInvariant

set_option autoImplicit false

namespace Portfolio.Kernel.Completion

open Portfolio.Lib

/-- The request is no longer `IO_INTERNAL`, its `io_Error` is not the number of a request, and the
callback returns a request that is not in use. -/
def Ends (s : State) (i : Item) (error : Err) (newior : Option (Item × Bool)) : Prop :=
  s.ioreqs error = none ∧ Idle s i newior ∧ ∀ r, s.ioreqs i = some r → r.internal = false

/-- What clients and devices keep to. Nobody waits for a request that has a callback, or for one
that may end quickly before `SendIO` has returned. -/
def Admitted (s : State) : Op → Prop
  | .internalSendIo i _ _ => ∀ r, s.ioreqs i = some r → r.done = true
  | .dispatchEnds i error newior => s.ioreqs error = none ∧ Idle s i newior
  | .internalSent i newior => Idle s i newior
  | .deviceCompletes i error newior => Ends s i error newior
  | .abortIo i ends error newior => ends = true → Ends s i error newior
  | .abortForeignIo _ i ends error newior => ends = true → Ends s i error newior
  | .waitIo i =>
    ∀ r, s.ioreqs i = some r → r.done = true ∨ r.quick = false ∧ r.callBack = false
  | _ => True

variable {s : State} {i a t : Item} {r : Ioreq} {error : Err} {newior : Option (Item × Bool)}
  {f : Ioreq → Ioreq}

theorem Sound.modify (sound : Sound s) (found : s.ioreqs i = some r) (fine : (f r).Sound s)
    (owner : (f r).owner = r.owner) (done : (f r).done = r.done)
    (callBack : (f r).callBack = r.callBack) (quick : r.quick = false → (f r).quick = false)
    (aborter : ∀ a, (f r).sigItem = some a → (s.tasks a).call = .abortIo i) :
    Sound (s.modify i f) := by
  refine modify_sound ?_ found (fun j r _ found => sound.ioreqs j r found) fine
  refine sound.tasks.modify found owner (fun t waits => ?_) aborter
  obtain ⟨-, -, -, running, slow, noCallBack⟩ := sound.tasks.waits t i r waits found
  exact ⟨done.trans running, quick slow, callBack.trans noCallBack⟩

theorem Sound.ending (sound : Sound s) (found : s.ioreqs i = some r) (running : r.done = false)
    (owner : (f r).owner = r.owner) (sigItem : (f r).sigItem = r.sigItem)
    (done : (f r).done = r.done) (callBack : (f r).callBack = r.callBack)
    (quick : (f r).quick = r.quick)
    (history : (f r).starts = r.starts ∧ (f r).completions = r.completions ∧
      (f r).notices = r.notices ∧ (f r).silent = r.silent)
    (error : s.ioreqs (f r).error = none) : Ending (s.modify i f) i (f r) := by
  obtain ⟨starts, completions, notices, silent⟩ := history
  have fine := sound.ioreqs i r found
  refine ⟨?_, ?_, ?_, done.trans running, ?_, ?_, State.modify_none.mpr error⟩
  · refine sound.tasks.modify found owner (fun t waits => ?_) fun a sig => ?_
    · obtain ⟨-, -, -, -, slow, noCallBack⟩ := sound.tasks.waits t i r waits found
      exact ⟨done.trans running, quick.trans slow, callBack.trans noCallBack⟩
    · exact sound.tasks.aborts i r a found (sigItem.symm.trans sig)
  · rw [State.modify_ioreqs, if_pos rfl, found]
    rfl
  · intro j r' other found'
    rw [State.modify_ioreqs, if_neg other] at found'
    exact (sound.ioreqs j r' found').congr fun _ => State.modify_none
  · have started := fine.started
    rw [running] at started
    rw [starts, completions]
    exact started
  · rw [completions, notices, silent]
    exact fine.noticed

theorem Idle.modify (idle : Idle s i newior) : Idle (s.modify i f) i newior := by
  intro n quick r returned other found
  rw [State.modify_ioreqs, if_neg other] at found
  exact idle n quick r returned other found

theorem giveBack_sound (sound : Sound s) (found : s.ioreqs i = some r) (running : r.done = false)
    (external : r.internal = false) (unknown : s.ioreqs error = none)
    (idle : Idle s i newior) :
    Sound ((s.giveBack i error .idle).internalCompleteIo i newior) := by
  have ending : Ending (s.giveBack i error .idle) i { r with error, place := .idle } :=
    sound.ending (f := fun r => { r with error, place := .idle }) found running rfl rfl rfl rfl rfl
      ⟨rfl, rfl, rfl, rfl⟩ unknown
  rw [State.internalCompleteIo, ending.found]
  simp only [external]
  exact completeAgain_sound ending idle.modify

theorem Ioreq.Sound.running (fine : r.Sound s) (place : r.place ≠ .idle) : r.done = false := by
  rw [← Bool.not_eq_true]
  exact mt fine.held.mp place

theorem deviceCompletes_sound (sound : Sound s) (ends : Ends s i error newior) :
    Sound (s.deviceCompletes i error newior) := by
  obtain ⟨unknown, idle, external⟩ := ends
  rw [State.deviceCompletes]
  split
  · next r found =>
    split
    · next pending =>
      have running := (sound.ioreqs i r found).running (by simp [pending])
      exact giveBack_sound sound found running (external r found) unknown idle
    · exact sound
  · exact sound

theorem startIo_sound {quick wait valid : Bool} (sound : Sound s) :
    Sound (s.startIo i quick wait valid) := by
  rw [State.startIo]
  split
  · exact sound
  · next r found =>
    split
    · exact sound
    · split
      · exact sound
      · split
        · exact sound
        · next done =>
          split
          · exact sound
          · exact start_sound sound found (not_not.mp done) rfl rfl ⟨rfl, rfl, rfl, rfl⟩

theorem internalSendIo_sound {quick callBack : Bool} (sound : Sound s)
    (idle : ∀ r, s.ioreqs i = some r → r.done = true) :
    Sound (s.internalSendIo i quick callBack) := by
  rw [State.internalSendIo]
  cases found : s.ioreqs i with
  | none =>
    rw [State.modify_absent found]
    exact sound
  | some r => exact start_sound sound found (idle r found) rfl rfl ⟨rfl, rfl, rfl, rfl⟩

theorem dispatchEnds_sound (sound : Sound s) (unknown : s.ioreqs error = none)
    (idle : Idle s i newior) : Sound (s.dispatchEnds i error newior) := by
  rw [State.dispatchEnds]
  split
  · next r found =>
    have fine := sound.ioreqs i r found
    split
    · exact sound
    · next dispatched =>
      have running := fine.running (by simp [not_not.mp dispatched])
      split
      · next internal =>
        refine sound.modify found ?_ rfl rfl rfl id fun a sig => sound.tasks.aborts i r a found sig
        refine ⟨?_, by simp, fun _ => internal, fun _ => unknown, fine.started, fine.noticed⟩
        simp [running]
      · next external =>
        rw [Bool.not_eq_true] at external
        exact giveBack_sound sound found running external unknown idle
  · exact sound

theorem dispatchDefers_sound (sound : Sound s) : Sound (s.dispatchDefers i) := by
  rw [State.dispatchDefers]
  split
  · next r found =>
    have fine := sound.ioreqs i r found
    split
    · next dispatched =>
      have running := fine.running (by simp [dispatched])
      refine sound.modify found ?_ rfl rfl rfl (fun _ => rfl) fun a sig =>
        sound.tasks.aborts i r a found sig
      refine ⟨?_, fun _ => rfl, by simp, by simp, fine.started, fine.noticed⟩
      simp [running]
    · exact sound
  · exact sound

theorem internalSent_sound (sound : Sound s) (idle : Idle s i newior) :
    Sound (s.internalSent i newior) := by
  rw [State.internalSent]
  split
  · next r found =>
    have fine := sound.ioreqs i r found
    split
    · exact sound
    · split
      · next returned =>
        have running := fine.running (by simp [returned])
        have ending := sound.ending (f := fun r => { r with internal := false }) found running rfl
          rfl rfl rfl rfl ⟨rfl, rfl, rfl, rfl⟩ (fine.error returned)
        exact completeAgain_sound ending idle.modify
      · next elsewhere =>
        refine sound.modify found ?_ rfl rfl rfl id fun a sig => sound.tasks.aborts i r a found sig
        exact ⟨fine.held, fine.slow, fun returned => absurd returned elsewhere,
          fun returned => absurd returned elsewhere, fine.started, fine.noticed⟩
  · exact sound

theorem Sound.notWaiting (sound : Sound s) (call : ∀ i, (s.tasks t).call ≠ .waitIo i) :
    s.ioreqs (s.tasks t).waitItem = none := by
  cases found : s.ioreqs (s.tasks t).waitItem with
  | none => rfl
  | some r =>
    obtain ⟨waits, -⟩ := sound.tasks.waits t _ r rfl found
    exact absurd waits (call _)

theorem waitIo_sound (sound : Sound s)
    (told : ∀ r, s.ioreqs i = some r → r.done = true ∨ r.quick = false ∧ r.callBack = false) :
    Sound (s.waitIo i) := by
  rw [State.waitIo]
  split
  · next r found =>
    split
    · exact sound
    · next goes =>
      obtain ⟨user, running⟩ := not_or.mp goes
      rw [not_not] at user
      rw [Bool.not_eq_true] at running
      have flags : r.quick = false ∧ r.callBack = false := by
        obtain done | flags := told r found
        · rw [running] at done
          cases done
        · exact flags
      refine sound.modifyTask ⟨?_, ?_, ?_, ?_, sound.tasks.noItem⟩
      · intro u j r' waits found'
        rw [State.modifyTask_tasks] at waits ⊢
        split at waits
        · next owner =>
          subst owner waits
          rw [State.modifyTask_ioreqs, found] at found'
          cases found'
          simp [running, flags]
        · next other =>
          simp only [other, if_false]
          exact sound.tasks.waits u j r' waits found'
      · intro u j call asleep
        rw [State.modifyTask_tasks] at call asleep ⊢
        split at call
        · next owner =>
          cases call
          simp [owner]
        · next other =>
          simp only [other, if_false] at asleep ⊢
          exact sound.tasks.asleep u j call asleep
      · intro j r' a found' sig
        have call := sound.tasks.aborts j r' a found' sig
        rw [State.modifyTask_tasks]
        split
        · next owner =>
          rw [owner, user] at call
          cases call
        · exact call
      · intro u j call
        rw [State.modifyTask_tasks] at call
        split at call
        · cases call
          rw [State.modifyTask_ioreqs, found]
          exact Option.some_ne_none r
        · exact sound.tasks.known u j call
  · exact sound

theorem abortPass_sound (sound : Sound s)
    (call : (s.tasks a).call = .user ∨ (s.tasks a).call = .abortIo i) :
    Sound (s.abortPass a i) := by
  have calls : ∀ j r, s.ioreqs j = some r → r.sigItem = some a → j = i ∧
      (s.tasks a).call = .abortIo i := by
    intro j r found sig
    have aborts := sound.tasks.aborts j r a found sig
    obtain user | aborting := call
    · rw [user] at aborts
      cases aborts
    · rw [aborting] at aborts
      cases aborts
      exact ⟨rfl, aborting⟩
  have unknown := sound.notWaiting (t := a) fun i waits => by
    obtain user | aborting := call
    · rw [user] at waits
      cases waits
    · rw [aborting] at waits
      cases waits
  rw [State.abortPass]
  split
  · next r found =>
    have fine := sound.ioreqs i r found
    split
    · next done =>
      split
      · next aborting =>
        have cleared : Sound (s.modify i fun r => { r with sigItem := none }) := by
          refine sound.modify found ?_ rfl rfl rfl id (by simp)
          exact ⟨fine.held, fine.slow, fine.internal, fine.error, fine.started, fine.noticed⟩
        refine cleared.modifyTask (cleared.tasks.modifyTask ?_ (by simp) fun j r' found' sig => ?_)
        · exact State.modify_none.mpr unknown
        · rw [State.modify_ioreqs] at found'
          split at found'
          · rw [found] at found'
            cases found'
            cases sig
          · next other => exact absurd (calls j r' found' sig).1 other
      · next direct =>
        refine sound.modifyTask (sound.tasks.modifyTask unknown (by simp) fun j r' found' sig => ?_)
        exact absurd (calls j r' found' sig).2 direct
    · next running =>
      rw [Bool.not_eq_true] at running
      rw [State.modify_modifyTask]
      have waiting : Sound (s.modifyTask a fun t =>
          { t with asleep := true, call := .abortIo i }) := by
        refine sound.modifyTask (sound.tasks.modifyTask unknown (by simp) fun j r' found' sig => ?_)
        rw [(calls j r' found' sig).1]
      refine waiting.modify found ?_ rfl rfl rfl id fun b sig => ?_
      · exact ⟨fine.held, fine.slow, fine.internal, fine.error, fine.started, fine.noticed⟩
      · cases sig
        simp
  · exact sound

theorem wake_sound (sound : Sound s) : Sound (s.wake t) := by
  rw [State.wake]
  split
  · exact sound
  · split
    · exact sound
    · next j waits =>
      refine sound.modifyTask (sound.tasks.modifyTask sound.tasks.noItem (by simp) ?_)
      intro k r found sig
      have aborts := sound.tasks.aborts k r t found sig
      rw [waits] at aborts
      cases aborts
    · next j aborting => exact abortPass_sound sound (Or.inr aborting)

theorem message_sound (sound : Sound s) (message : Option Bool → Option Bool) :
    Sound (s.modify i fun r => { r with message := message r.message }) := by
  cases found : s.ioreqs i with
  | none =>
    rw [State.modify_absent found]
    exact sound
  | some r =>
    have fine := sound.ioreqs i r found
    refine sound.modify found ?_ rfl rfl rfl id fun a sig => sound.tasks.aborts i r a found sig
    exact ⟨fine.held, fine.slow, fine.internal, fine.error, fine.started, fine.noticed⟩

theorem internalAbortIo_sound {ends : Bool} (sound : Sound s)
    (admitted : ends = true → Ends s i error newior) :
    Sound (s.internalAbortIo i ends error newior) := by
  rw [State.internalAbortIo]
  split
  · next atOnce => exact deviceCompletes_sound sound (admitted atOnce)
  · exact sound

theorem step_sound (s : State) (op : Op) (sound : Sound s) (admitted : Admitted s op) :
    Sound (step s op) := by
  cases op with
  | startIo i quick wait valid => exact startIo_sound sound
  | internalSendIo i quick callBack => exact internalSendIo_sound sound admitted
  | dispatchEnds i error newior => exact dispatchEnds_sound sound admitted.1 admitted.2
  | dispatchDefers i => exact dispatchDefers_sound sound
  | internalSent i newior => exact internalSent_sound sound admitted
  | deviceCompletes i error newior => exact deviceCompletes_sound sound admitted
  | waitIo i => exact waitIo_sound sound admitted
  | abortIo i ends error newior =>
    rw [step, State.abortIo]
    split
    · split
      · exact sound
      · exact internalAbortIo_sound sound admitted
    · exact sound
  | abortForeignIo a i ends error newior =>
    rw [step, State.abortForeignIo]
    split
    · exact sound
    · next user =>
      refine abortPass_sound (internalAbortIo_sound sound admitted) (Or.inl ?_)
      rw [State.internalAbortIo_call]
      exact not_not.mp user
  | wake t => exact wake_sound sound
  | getMsg i => exact message_sound sound fun message => message.map fun _ => false
  | deleteMsg i => exact message_sound sound fun _ => none

structure AtRest (s : State) : Prop where
  ioreqs : ∀ i r, s.ioreqs i = some r → r.done = true ∧ r.place = .idle ∧ r.sigItem = none ∧
    r.starts = 0 ∧ r.completions = 0 ∧ r.silent = 0 ∧ r.notices = []
  tasks : ∀ t, (s.tasks t).call = .user ∧ s.ioreqs (s.tasks t).waitItem = none
  noItem : s.ioreqs (-1) = none

/-- A start is completed once, there is one notice for each completion that is not silent, and nobody
sleeps in `WaitIO` for a request that is done. -/
structure CompletedOnce (s : State) (i : Item) (r : Ioreq) : Prop where
  once : r.starts = r.completions + if r.done then 0 else 1
  inFlight : r.done = false → r.place ≠ .idle
  noticed : r.completions = r.notices.length + r.silent
  awake : ∀ t, (s.tasks t).call = .waitIo i → (s.tasks t).asleep = true → r.done = false

theorem AtRest.sound (rest : AtRest s) : Sound s where
  ioreqs i r found := by
    obtain ⟨done, place, -, starts, completions, silent, notices⟩ := rest.ioreqs i r found
    exact ⟨by simp [done, place], by simp [place], by simp [place], by simp [place],
      by simp [starts, completions, done], by simp [completions, notices, silent]⟩
  tasks := by
    refine ⟨?_, ?_, ?_, ?_, rest.noItem⟩
    · intro t i r waits found
      obtain ⟨-, unknown⟩ := rest.tasks t
      rw [waits, found] at unknown
      cases unknown
    · intro t i call
      rw [(rest.tasks t).1] at call
      cases call
    · intro i r a found sig
      rw [(rest.ioreqs i r found).2.2.1] at sig
      cases sig
    · intro t i call
      rw [(rest.tasks t).1] at call
      cases call

theorem Sound.completedOnce (sound : Sound s) (found : s.ioreqs i = some r) :
    CompletedOnce s i r := by
  have fine := sound.ioreqs i r found
  refine ⟨fine.started, fun running idle => ?_, fine.noticed, fun t call asleep => ?_⟩
  · rw [fine.held.mpr idle] at running
    cases running
  · have waits := sound.tasks.asleep t i call asleep
    obtain ⟨-, -, -, running, -⟩ := sound.tasks.waits t i r waits found
    exact running

theorem io_completed_once {start : State} (rest : AtRest start) {ops : List Op}
    (admitted : Along step Admitted start ops) :
    ∀ i r, (run step start ops).ioreqs i = some r → CompletedOnce (run step start ops) i r := by
  have sound : Sound (run step start ops) := run_invariant step_sound rest.sound admitted
  exact fun i r found => sound.completedOnce found

def sample : State where
  ioreqs i :=
    if i = 40 ∨ i = 41 then
      some
        { owner := 7, messageBased := false, message := none, callBack := false, done := true
          quick := true, internal := false, error := 0, sigItem := none, place := .idle
          starts := 0, completions := 0, silent := 0, notices := [] }
    else none
  tasks _ := { waitItem := -1, asleep := false, call := .user }

theorem sample_atRest : AtRest sample where
  ioreqs i r found := by
    simp only [sample] at found
    split at found
    · cases found
      exact ⟨rfl, rfl, rfl, rfl, rfl, rfl, rfl⟩
    · cases found
  tasks t := ⟨rfl, (by decide : sample.ioreqs (-1) = none)⟩
  noItem := by decide

theorem io_completed_once_sample :
    let ops : List Op :=
      [.startIo 40 false false true, .dispatchDefers 40, .waitIo 40, .deviceCompletes 40 0 none,
        .wake 7]
    ∀ i r, (run step sample ops).ioreqs i = some r → CompletedOnce (run step sample ops) i r := by
  intro ops
  refine io_completed_once sample_atRest ⟨trivial, trivial, ?_, ⟨?_, ?_, ?_⟩, trivial, trivial⟩
  · intro r found
    cases found
    exact Or.inr ⟨rfl, rfl⟩
  · decide
  · intro n quick r returned
    cases returned
  · intro r found
    cases found
    rfl

theorem io_not_noticed :
    let quickly : List Op := [.startIo 40 true false true, .dispatchEnds 40 0 none]
    let called : List Op :=
      [.internalSendIo 40 false true, .dispatchDefers 40, .waitIo 40, .deviceCompletes 40 0 none]
    ((run step sample quickly).ioreqs 40).map (fun r => (r.completions, r.notices)) =
        some (1, []) ∧
      ((run step sample called).ioreqs 40).map (fun r => r.done) = some true ∧
      ((run step sample called).tasks 7).call = .waitIo 40 ∧
      ((run step sample called).tasks 7).asleep = true := by
  decide

theorem internal_completion_lost :
    let ops : List Op :=
      [.internalSendIo 40 false true, .dispatchEnds 40 0 (some (41, false)), .dispatchDefers 41,
        .deviceCompletes 41 0 none, .internalSent 41 none]
    ((run step sample ops).ioreqs 41).map (fun r => (r.done, r.internal, r.place)) =
      some (false, false, .idle) := by
  decide

end Portfolio.Kernel.Completion
