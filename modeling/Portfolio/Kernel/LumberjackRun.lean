import Portfolio.Kernel.LumberjackEvents
import Portfolio.Lib.Run

set_option autoImplicit false

namespace Portfolio.Kernel

open Portfolio.Lib

open Log

namespace Lumberjack

variable (s : Lumberjack)

def activeSlot : List Nat := if s.nextEvent.isSome then s.activeBuffer.toList else []

def places : List Nat := s.activeSlot ++ s.emptyBuffers ++ s.fullBuffers ++ s.obtainedBuffers

def activeEvents : List (List Byte) :=
  match s.nextEvent, s.activeBuffer with
  | some off, some active =>
    (Buffer.events ⟨(s.buffers active).data.store off (endHeader 0).bytes, 0⟩).getD []
  | _, _ => []

def contents : List (List Byte) :=
  s.taken ++ s.fullBuffers.flatMap (fun lb => (s.buffers lb).events.getD []) ++ s.activeEvents

structure BuffersSound : Prop where
  places : s.places.Perm s.heap
  once : s.heap.Nodup
  frees : s.badFrees = 0
  handed : ∀ lb ∈ s.fullBuffers ++ s.obtainedBuffers, (s.buffers lb).events.isSome
  active : ∀ off, s.nextEvent = some off → ∃ lb, s.activeBuffer = some lb ∧
    off < bufferSize - 1024 ∧ ∃ events, Chain (s.buffers lb).data 0 events off
  deleted : s.created = false → s.heap = []
  logging : s.eventsLogged ≠ 0 → s.created = true

def Fits (d : Data) (cur : Log.Task) : Prop :=
  ∀ active off empty, s.place = some (active, off, empty) →
    off + d.rounded cur + sizeofHeader ≤ bufferSize ∧ d.rounded cur < 2 ^ 16

def NoStaleBuffer : Prop := s.nextEvent.isSome ∨ s.activeBuffer = none

def Meets : LogOp → Prop
  | .create tags mems => tags = false → s.created = false → mems.length < numBuffers → s.NoStaleBuffer
  | .delete => s.NoStaleBuffer
  | .control _ => True
  | .log control d cur _ => s.eventsLogged &&& control ≠ 0 → s.Fits d cur
  | .obtain _ => True
  | .release lb _ => lb ∈ s.obtainedBuffers → s.overflow = false

def Allocates : LogOp → Prop
  | .create _ mems => mems.Nodup
  | _ => True

def KeepsEvents (op : LogOp) : Prop :=
  match op with
  | .create _ _ => True
  | .delete => True
  | .log control d cur time =>
    if s.eventsLogged &&& control = 0 then (s.step op).contents = s.contents
    else
      (∃ start r, (s.step op).contents = s.contents ++ [r] ∧ d.bytes cur time start <+: r) ∨
        ((s.nextEvent = none ∧ s.emptyBuffers = []) ∧ (s.step op).contents = s.contents)
  | _ => (s.step op).contents = s.contents

def WritesInside (op : LogOp) : Prop :=
  ∀ lb i, ((s.step op).buffers lb).data i ≠ (s.buffers lb).data i →
    i < bufferSize ∧ (lb ∈ s.activeSlot ∨ lb ∈ s.emptyBuffers)

section

variable {s}

theorem superFreeAll_spec {blocks rest : List Nat} (all : (blocks ++ rest).Perm s.heap) :
    ∃ heap, s.superFreeAll blocks = { s with heap } ∧ rest.Perm heap := by
  induction blocks generalizing s with
  | nil => exact ⟨s.heap, rfl, all⟩
  | cons block blocks ih =>
    have member : s.heap.contains block = true :=
      List.contains_iff_mem.mpr (all.subset (List.mem_cons_self ..))
    have first : s.superFreeMem (some block) = { s with heap := s.heap.erase block } := by
      rw [superFreeMem, if_pos member]
    have left : (blocks ++ rest).Perm (s.heap.erase block) := by
      have erased := all.erase block
      rwa [List.cons_append, List.erase_cons_head] at erased
    obtain ⟨heap, freed, perm⟩ := ih (s := { s with heap := s.heap.erase block }) left
    refine ⟨heap, ?_, perm⟩
    rw [superFreeAll, List.foldl_cons, first]
    exact freed

theorem superFreeMem_toList (block : Option Nat) :
    s.superFreeMem block = s.superFreeAll block.toList := by
  cases block <;> rfl

theorem delete_spec (places : s.places.Perm s.heap) (stale : s.NoStaleBuffer) :
    s.internalDeleteLumberjack = { s with
      eventsLogged := 0, created := false, nextEvent := none,
      emptyBuffers := [], fullBuffers := [], obtainedBuffers := [], heap := [] } := by
  have slot : s.activeSlot = s.activeBuffer.toList := by
    unfold activeSlot
    rcases stale with some | none
    · rw [if_pos some]
    · rw [none]
      split <;> rfl
  have all := places
  unfold Lumberjack.places at all
  rw [slot, List.append_assoc, List.append_assoc] at all
  obtain ⟨heap₁, active, all⟩ := superFreeAll_spec
    (s := { s with eventsLogged := 0, created := false, nextEvent := none }) all
  obtain ⟨heap₂, empty, all⟩ := superFreeAll_spec
    (s := { s with eventsLogged := 0, created := false, nextEvent := none, heap := heap₁ }) all
  obtain ⟨heap₃, full, all⟩ := superFreeAll_spec
    (s := { s with
      eventsLogged := 0, created := false, nextEvent := none, emptyBuffers := [], heap := heap₂ }) all
  rw [← List.append_nil s.obtainedBuffers] at all
  obtain ⟨heap₄, obtained, all⟩ := superFreeAll_spec
    (s := { s with
      eventsLogged := 0, created := false, nextEvent := none, emptyBuffers := [], fullBuffers := []
      heap := heap₃ }) all
  have nothing : heap₄ = [] := List.nil_perm.mp all
  unfold internalDeleteLumberjack
  dsimp only
  rw [superFreeMem_toList]
  dsimp only at active
  rw [active]
  dsimp only
  dsimp only at empty
  rw [empty]
  dsimp only
  dsimp only at full
  rw [full]
  dsimp only
  dsimp only at obtained
  rw [obtained, nothing]

end

structure Filling (s : Lumberjack) (active off : Nat) (events : List (List Byte)) : Prop where
  places : (active :: (s.emptyBuffers ++ s.fullBuffers ++ s.obtainedBuffers)).Perm s.heap
  once : s.heap.Nodup
  frees : s.badFrees = 0
  handed : ∀ lb ∈ s.fullBuffers ++ s.obtainedBuffers, (s.buffers lb).events.isSome
  chain : Chain (s.buffers active).data 0 events off
  fits : off + sizeofHeader ≤ bufferSize
  deleted : s.created = true

section

variable {s : Lumberjack} {active off : Nat} {events : List (List Byte)}

theorem endHeader_type (time : BitVec 64) (data : ByteMem) (off : Nat) :
    ofBytes ((data.store off (endHeader time).bytes).load off 2) = typeBufferEnd.toNat := by
  have le : 2 ≤ (endHeader time).bytes.length := by
    rw [length_headerBytes]
    decide
  have first := (data.store off (endHeader time).bytes).load_take off le
  rw [data.load_store_self] at first
  obtain ⟨type, -⟩ := take_two_header (endHeader time) []
  rw [List.append_nil] at type
  rw [first, type, ofBytes_toBytes_of_lt (endHeader time).type.isLt]
  rfl

theorem events_of_chain {data : ByteMem} (chain : Chain data 0 events off)
    (fits : off + sizeofHeader ≤ bufferSize) (time : BitVec 64) (size : Nat) :
    (Buffer.mk (data.store off (endHeader time).bytes) size).events = some events := by
  have short := chain.length_le
  unfold sizeofHeader at fits
  exact (chain.store _).parse (endHeader_type time data off) fits (by omega)

theorem Filling.not_handed (filling : s.Filling active off events) {lb : Nat}
    (member : lb ∈ s.emptyBuffers ++ s.fullBuffers ++ s.obtainedBuffers) : lb ≠ active := by
  have once := filling.places.nodup_iff.mpr filling.once
  rintro rfl
  exact (List.nodup_cons.mp once).1 member

theorem Filling.setBuffer_other (filling : s.Filling active off events) (b : Buffer) {lb : Nat}
    (member : lb ∈ s.emptyBuffers ++ s.fullBuffers ++ s.obtainedBuffers) :
    (s.setBuffer active b).buffers lb = s.buffers lb :=
  Function.update_of_ne (filling.not_handed member) _ _

theorem Filling.flatMap_full (filling : s.Filling active off events) (b : Buffer) :
    s.fullBuffers.flatMap (fun lb => ((s.setBuffer active b).buffers lb).events.getD []) =
      s.fullBuffers.flatMap (fun lb => (s.buffers lb).events.getD []) := by
  refine List.flatMap_congr fun lb member => ?_
  rw [filling.setBuffer_other b (by simp [member])]

theorem setBuffer_self (s : Lumberjack) (active : Nat) (b : Buffer) :
    (s.setBuffer active b).buffers active = b := Function.update_self _ _ _

theorem setBuffer_other (s : Lumberjack) (b : Buffer) {lb : Nat} (other : lb ≠ active) :
    (s.setBuffer active b).buffers lb = s.buffers lb := Function.update_of_ne other _ _

theorem Filling.store (filling : s.Filling active off events) (d : Data) (cur : Log.Task)
    (time : BitVec 64) (fits : off + d.rounded cur + sizeofHeader ≤ bufferSize)
    (small : d.rounded cur < 2 ^ 16) :
    (s.setBuffer active { s.buffers active with
      data := (s.buffers active).data.store off (d.bytes cur time off) }).Filling active
        (off + d.rounded cur) (events ++ [d.record cur time (s.buffers active).data off]) := by
  have length : (d.record cur time (s.buffers active).data off).length = d.rounded cur :=
    ByteMem.length_load _ _ _
  refine ⟨filling.places, filling.once, filling.frees, fun lb member => ?_, ?_, fits, filling.deleted⟩
  · rw [filling.setBuffer_other _ (by
      rw [List.append_assoc]
      exact List.mem_append_right _ member)]
    exact filling.handed lb member
  · rw [setBuffer_self]
    have stored := (filling.chain.store (d.bytes cur time off)).append
      (r := d.record cur time (s.buffers active).data off) (by rw [length]; rfl)
      (d.record_isEvent cur time _ off small)
    rwa [length] at stored

theorem Filling.stays (filling : s.Filling active off events) (room : off < bufferSize - 1024) :
    ({ s with activeBuffer := some active, nextEvent := some off } : Lumberjack).BuffersSound ∧
      ({ s with activeBuffer := some active, nextEvent := some off } : Lumberjack).contents =
        s.taken ++ s.fullBuffers.flatMap (fun lb => (s.buffers lb).events.getD []) ++ events := by
  constructor
  · refine ⟨filling.places, filling.once, filling.frees, filling.handed, ?_, ?_, fun _ => filling.deleted⟩
    · intro off' next
      cases next
      exact ⟨active, rfl, room, events, filling.chain⟩
    · intro none
      rw [filling.deleted] at none
      nomatch none
  · unfold contents activeEvents
    dsimp only
    rw [events_of_chain filling.chain filling.fits]
    rfl

theorem Filling.complete (filling : s.Filling active off events) (time : BitVec 64) :
    (s.completeActiveBuffer active off time).BuffersSound ∧
      (s.completeActiveBuffer active off time).contents =
        s.taken ++ s.fullBuffers.flatMap (fun lb => (s.buffers lb).events.getD []) ++ events := by
  have ended := events_of_chain filling.chain filling.fits time (off + sizeofHeader)
  constructor
  · refine ⟨?_, filling.once, filling.frees, ?_, nofun, ?_, fun _ => filling.deleted⟩
    · refine List.Perm.trans ?_ filling.places
      show ([] ++ s.emptyBuffers ++ (s.fullBuffers ++ [active]) ++ s.obtainedBuffers).Perm _
      rw [List.nil_append, ← List.append_assoc s.emptyBuffers, List.append_assoc _ [active]]
      exact List.perm_middle
    · intro lb member
      show ((s.setBuffer active _).buffers lb).events.isSome
      by_cases same : lb = active
      · subst same
        rw [setBuffer_self, ended]
        rfl
      · have handed : lb ∈ s.fullBuffers ++ s.obtainedBuffers := by
          simp only [completeActiveBuffer, List.mem_append, List.mem_singleton, same, or_false] at member
          exact List.mem_append.mpr member
        rw [filling.setBuffer_other _ (by
          rw [List.append_assoc]
          exact List.mem_append_right _ handed)]
        exact filling.handed lb handed
    · intro none
      have deleted : s.created = false := none
      rw [filling.deleted] at deleted
      nomatch deleted
  · show s.taken ++ (s.fullBuffers ++ [active]).flatMap (fun lb =>
      ((s.setBuffer active _).buffers lb).events.getD []) ++ [] = _
    rw [List.flatMap_append, filling.flatMap_full, List.flatMap_singleton, setBuffer_self, ended,
      List.append_nil, List.append_assoc]
    rfl

theorem room_for_end (few : off < bufferSize - 1024) : off + sizeofHeader ≤ bufferSize := by
  unfold bufferSize at few
  unfold bufferSize sizeofHeader
  omega

theorem BuffersSound.filling (sound : s.BuffersSound) (created : s.created = true) {empty : List Nat}
    (place : s.place = some (active, off, empty)) (fits : off + sizeofHeader ≤ bufferSize) :
    ∃ events, ({ s with emptyBuffers := empty } : Lumberjack).Filling active off events ∧
      s.contents = s.taken ++ s.fullBuffers.flatMap (fun lb => (s.buffers lb).events.getD []) ++ events ∧
      (active ∈ s.activeSlot ∨ active ∈ s.emptyBuffers) := by
  have places := sound.places
  unfold Lumberjack.places activeSlot at places
  unfold Lumberjack.place at place
  cases next : s.nextEvent with
  | some start =>
    obtain ⟨lb, slot, few, events, chain⟩ := sound.active start next
    have room := room_for_end few
    rw [next, slot] at place
    cases place
    rw [next, slot] at places
    refine ⟨events, ⟨places, sound.once, sound.frees, sound.handed, chain, room, created⟩, ?_, Or.inl ?_⟩
    · rw [contents, activeEvents, next, slot]
      dsimp only
      rw [events_of_chain chain room]
      rfl
    · rw [activeSlot, next, slot]
      exact List.mem_cons_self ..
  | none =>
    rw [next] at place
    cases list : s.emptyBuffers with
    | nil =>
      rw [list] at place
      cases place
    | cons first rest =>
      rw [list] at place
      cases place
      rw [next, list] at places
      refine ⟨[], ⟨places, sound.once, sound.frees, sound.handed, rfl, fits, created⟩, ?_, Or.inr ?_⟩
      · rw [contents, activeEvents, next]
      · exact List.mem_cons_self ..

theorem BuffersSound.place_none (sound : s.BuffersSound) (place : s.place = none) :
    s.nextEvent = none ∧ s.emptyBuffers = [] := by
  unfold Lumberjack.place at place
  cases next : s.nextEvent with
  | some start =>
    obtain ⟨lb, slot, -⟩ := sound.active start next
    rw [next, slot] at place
    cases place
  | none =>
    rw [next] at place
    cases list : s.emptyBuffers with
    | nil => exact ⟨rfl, rfl⟩
    | cons first rest =>
      rw [list] at place
      cases place

theorem Filling.logAt (filling : s.Filling active off events) (d : Data) (cur : Log.Task)
    (time : BitVec 64) (fits : off + d.rounded cur + sizeofHeader ≤ bufferSize)
    (small : d.rounded cur < 2 ^ 16) :
    (s.logAt active off d cur time).BuffersSound ∧
      (s.logAt active off d cur time).contents =
        s.taken ++ s.fullBuffers.flatMap (fun lb => (s.buffers lb).events.getD []) ++
          (events ++ [d.record cur time (s.buffers active).data off]) := by
  have stored := filling.store d cur time fits small
  have whole : (BitVec.ofNat 16 (d.rounded cur)).toNat = d.rounded cur := by
    rw [BitVec.toNat_ofNat, Nat.mod_eq_of_lt small]
  unfold Lumberjack.logAt
  dsimp only
  rw [whole]
  split
  · obtain ⟨sound, contents⟩ := stored.complete time
    exact ⟨sound, contents.trans (congrArg (s.taken ++ · ++ _) (filling.flatMap_full _))⟩
  · rename_i room
    obtain ⟨sound, contents⟩ := stored.stays (Nat.not_le.mp room)
    exact ⟨sound, contents.trans (congrArg (s.taken ++ · ++ _) (filling.flatMap_full _))⟩

theorem BuffersSound.overflowed (sound : s.BuffersSound) (next : s.nextEvent = none) (overflow : Bool)
    (time : BitVec 64) :
    ({ s with overflow, overflowStartTime := time, activeBuffer := none } : Lumberjack).BuffersSound ∧
      ({ s with overflow, overflowStartTime := time, activeBuffer := none } : Lumberjack).contents =
        s.contents := by
  have places := sound.places
  unfold Lumberjack.places activeSlot at places
  rw [next] at places
  constructor
  · refine ⟨?_, sound.once, sound.frees, sound.handed, ?_, sound.deleted, sound.logging⟩
    · unfold Lumberjack.places activeSlot
      rw [next]
      exact places
    · intro off goes
      have filled : s.nextEvent = some off := goes
      rw [next] at filled
      cases filled
  · unfold contents activeEvents
    rw [next]

theorem BuffersSound.logEvent (sound : s.BuffersSound) (control : BitVec 32) (d : Data)
    (cur : Log.Task) (time : BitVec 64)
    (meets : s.eventsLogged &&& control ≠ 0 → s.Fits d cur) :
    (s.logEvent control d cur time).1.BuffersSound ∧
      s.KeepsEvents (.log control d cur time) := by
  unfold KeepsEvents
  dsimp only [step]
  unfold Lumberjack.logEvent
  by_cases off' : s.eventsLogged &&& control = 0
  · rw [if_pos off', if_pos off']
    exact ⟨sound, rfl⟩
  · rw [if_neg off', if_neg off']
    have created : s.created = true := by
      apply sound.logging
      intro none
      rw [none] at off'
      exact off' (BitVec.zero_and ..)
    unfold Lumberjack.log
    cases place : s.place with
    | none =>
      obtain ⟨next, empty⟩ := sound.place_none place
      dsimp only
      split
      · obtain ⟨lost, same⟩ := sound.overflowed next s.overflow s.overflowStartTime
        exact ⟨lost, Or.inr ⟨⟨next, empty⟩, same⟩⟩
      · obtain ⟨lost, same⟩ := sound.overflowed next true time
        exact ⟨lost, Or.inr ⟨⟨next, empty⟩, same⟩⟩
    | some found =>
      obtain ⟨active, start, empty⟩ := found
      obtain ⟨fits, small⟩ := meets off' active start empty place
      obtain ⟨events, filling, contents, -⟩ := sound.filling created place (by omega)
      obtain ⟨next, grown⟩ := filling.logAt d cur time fits small
      refine ⟨next, Or.inl ⟨start, d.record cur time (s.buffers active).data start, ?_, ?_⟩⟩
      · rw [contents]
        refine grown.trans ?_
        rw [← List.append_assoc]
      · exact d.record_prefix cur time _ start

theorem BuffersSound.obtain (sound : s.BuffersSound) {lb : Nat} {rest : List Nat}
    (full : s.fullBuffers = lb :: rest) :
    (s.obtain lb).BuffersSound ∧ (s.obtain lb).contents = s.contents := by
  constructor
  · refine ⟨?_, sound.once, sound.frees, fun other member => sound.handed other ?_, sound.active,
      sound.deleted, sound.logging⟩
    · refine List.Perm.trans ?_ sound.places
      show (s.activeSlot ++ s.emptyBuffers ++ s.fullBuffers.tail ++ (s.obtainedBuffers ++ [lb])).Perm
        (s.activeSlot ++ s.emptyBuffers ++ s.fullBuffers ++ s.obtainedBuffers)
      rw [full, List.tail_cons, ← List.append_assoc]
      refine (List.perm_append_singleton _ _).trans ?_
      rw [List.append_assoc _ rest, List.append_assoc _ (lb :: rest)]
      exact List.perm_middle.symm
    · have moved : other ∈ s.fullBuffers.tail ++ (s.obtainedBuffers ++ [lb]) := member
      rw [full] at moved ⊢
      simp only [List.tail_cons, List.mem_append, List.mem_cons, List.not_mem_nil, or_false] at moved ⊢
      tauto
  · show s.taken ++ (s.buffers lb).events.getD [] ++ s.fullBuffers.tail.flatMap
      (fun lb => (s.buffers lb).events.getD []) ++ s.activeEvents = s.contents
    rw [contents, full, List.tail_cons, List.flatMap_cons]
    simp only [List.append_assoc]

theorem BuffersSound.internalObtain (sound : s.BuffersSound) (time : BitVec 64) :
    (s.internalObtainLumberjackBuffer time).1.BuffersSound ∧
      (s.internalObtainLumberjackBuffer time).1.contents = s.contents := by
  unfold internalObtainLumberjackBuffer
  cases full : s.fullBuffers with
  | cons lb rest => exact sound.obtain full
  | nil =>
    dsimp only
    cases next : s.nextEvent with
    | none => exact ⟨sound, rfl⟩
    | some off =>
      obtain ⟨lb, slot, few, -⟩ := sound.active off next
      have fits := room_for_end few
      rw [slot]
      dsimp only
      split
      · -- the active buffer becomes the only full one
        have place : s.place = some (lb, off, s.emptyBuffers) := by
          rw [Lumberjack.place, next, slot]
        have created : s.created = true := by
          by_contra deleted
          have heap := sound.deleted (Bool.eq_false_of_not_eq_true deleted)
          have places := sound.places
          rw [heap] at places
          have none : s.activeSlot = [] := by
            have all := List.perm_nil.mp places
            simp only [Lumberjack.places, List.append_eq_nil_iff] at all
            exact all.1.1.1
          rw [activeSlot, next, slot] at none
          cases none
        obtain ⟨events, filling, contents, -⟩ := sound.filling created place fits
        obtain ⟨completed, same⟩ := filling.complete time
        have only : (s.completeActiveBuffer lb off time).fullBuffers = lb :: [] := by
          show s.fullBuffers ++ [lb] = [lb]
          rw [full]
          rfl
        obtain ⟨obtained, unchanged⟩ := completed.obtain only
        exact ⟨obtained, unchanged.trans (same.trans contents.symm)⟩
      · exact ⟨sound, rfl⟩

theorem BuffersSound.release (sound : s.BuffersSound) (lb : Nat) (time : BitVec 64)
    (meets : lb ∈ s.obtainedBuffers → s.overflow = false) :
    (s.internalReleaseLumberjackBuffer lb time).BuffersSound ∧
      (s.internalReleaseLumberjackBuffer lb time).contents = s.contents := by
  unfold internalReleaseLumberjackBuffer
  split
  · rename_i got
    have member := List.contains_iff_mem.mp got
    dsimp only
    rw [if_neg (by rw [meets member]; exact Bool.false_ne_true)]
    refine ⟨⟨?_, sound.once, sound.frees, fun other moved => sound.handed other ?_, sound.active,
      sound.deleted, sound.logging⟩, rfl⟩
    · refine List.Perm.trans ?_ sound.places
      show (s.activeSlot ++ (s.emptyBuffers ++ [lb]) ++ s.fullBuffers ++ s.obtainedBuffers.erase lb).Perm
        (s.activeSlot ++ s.emptyBuffers ++ s.fullBuffers ++ s.obtainedBuffers)
      have back := (List.perm_cons_erase member).symm
      simp only [List.append_assoc]
      refine List.Perm.append_left _ (List.Perm.append_left _ ?_)
      have middle : (lb :: (s.fullBuffers ++ s.obtainedBuffers.erase lb)).Perm
          (s.fullBuffers ++ lb :: s.obtainedBuffers.erase lb) := List.perm_middle.symm
      exact middle.trans (back.append_left _)
    · rcases List.mem_append.mp moved with full | obtained
      · exact List.mem_append_left _ full
      · exact List.mem_append_right _ (List.mem_of_mem_erase obtained)
  · exact ⟨sound, rfl⟩

theorem BuffersSound.delete (sound : s.BuffersSound) (stale : s.NoStaleBuffer) :
    s.internalDeleteLumberjack.BuffersSound := by
  rw [delete_spec sound.places stale]
  refine ⟨List.Perm.refl _, List.nodup_nil, sound.frees, nofun, nofun, fun _ => rfl, fun logging => ?_⟩
  exact absurd rfl logging

theorem BuffersSound.create (sound : s.BuffersSound) (tags : Bool) {mems : List Nat}
    (different : mems.Nodup)
    (meets : tags = false → s.created = false → mems.length < numBuffers → s.NoStaleBuffer) :
    (s.internalCreateLumberjack tags mems).1.BuffersSound := by
  unfold internalCreateLumberjack
  split
  · exact sound
  · rename_i noTags
    split
    · exact sound
    · rename_i notCreated
      have deleted := Bool.eq_false_of_not_eq_true notCreated
      have heap := sound.deleted deleted
      have nowhere : s.activeSlot = [] ∧ s.emptyBuffers = [] ∧ s.fullBuffers = [] ∧
          s.obtainedBuffers = [] := by
        have places := sound.places
        rw [heap] at places
        have all := List.perm_nil.mp places
        simp only [Lumberjack.places, List.append_eq_nil_iff] at all
        exact ⟨all.1.1.1, all.1.1.2, all.1.2, all.2⟩
      obtain ⟨slot, empty, full, obtained⟩ := nowhere
      dsimp only
      split
      · rename_i short
        have few : mems.length < numBuffers := by
          rw [List.length_take] at short
          omega
        have stale := meets (Bool.eq_false_of_not_eq_true noTags) deleted few
        have places : (s.activeSlot ++ (s.emptyBuffers ++ mems.take numBuffers) ++ s.fullBuffers ++
            s.obtainedBuffers).Perm (s.heap ++ mems.take numBuffers) := by
          rw [slot, empty, full, obtained, heap]
          simp
        rw [delete_spec (s := { s with
          heap := s.heap ++ mems.take numBuffers
          emptyBuffers := s.emptyBuffers ++ mems.take numBuffers }) places stale]
        refine ⟨List.Perm.refl _, List.nodup_nil, sound.frees, nofun, nofun, fun _ => rfl,
          fun logging => ?_⟩
        exact absurd rfl logging
      · refine ⟨?_, ?_, sound.frees, ?_, nofun, nofun, fun _ => rfl⟩
        · show ([] ++ (s.emptyBuffers ++ _) ++ s.fullBuffers ++ s.obtainedBuffers).Perm (s.heap ++ _)
          rw [empty, full, obtained, heap]
          simp
        · show (s.heap ++ mems.take numBuffers).Nodup
          rw [heap]
          exact different.sublist (List.take_sublist _ _)
        · show ∀ lb ∈ s.fullBuffers ++ s.obtainedBuffers, _
          rw [full, obtained]
          exact nofun

theorem setBuffer_inside (s : Lumberjack) (address : Nat) (b : Buffer)
    (inside : ∀ i, b.data i ≠ (s.buffers address).data i → i < bufferSize) (lb i : Nat)
    (changed : ((s.setBuffer address b).buffers lb).data i ≠ (s.buffers lb).data i) :
    i < bufferSize ∧ lb = address := by
  by_cases same : lb = address
  · subst same
    rw [setBuffer_self] at changed
    exact ⟨inside i changed, rfl⟩
  · rw [setBuffer_other s b same] at changed
    exact absurd rfl changed

theorem store_inside (data : ByteMem) (off : Nat) (bytes : List Byte) (fits : off + bytes.length ≤ bufferSize)
    (i : Nat) (changed : data.store off bytes i ≠ data i) : i < bufferSize := by
  by_contra beyond
  exact changed (data.store_behind off bytes (by omega))

theorem logAt_inside (s : Lumberjack) (d : Data) (cur : Log.Task) (time : BitVec 64)
    (fits : off + d.rounded cur + sizeofHeader ≤ bufferSize) (small : d.rounded cur < 2 ^ 16)
    (lb i : Nat)
    (changed : ((s.logAt active off d cur time).buffers lb).data i ≠ (s.buffers lb).data i) :
    i < bufferSize ∧ lb = active := by
  obtain ⟨-, le, -⟩ := d.rounded_ge cur time off
  have whole : (BitVec.ofNat 16 (d.rounded cur)).toNat = d.rounded cur := by
    rw [BitVec.toNat_ofNat, Nat.mod_eq_of_lt small]
  have event := store_inside (s.buffers active).data off (d.bytes cur time off) (by omega)
  unfold Lumberjack.logAt at changed
  dsimp only at changed
  rw [whole] at changed
  split at changed
  · -- the event and the end of the buffer
    by_cases stored : ((s.setBuffer active { s.buffers active with
        data := (s.buffers active).data.store off (d.bytes cur time off) }).buffers lb).data i =
          (s.buffers lb).data i
    · rw [← stored] at changed
      refine setBuffer_inside _ active _ (fun j => store_inside _ _ _ ?_ j) lb i changed
      rw [length_headerBytes]
      exact fits
    · exact setBuffer_inside s active _ event lb i stored
  · exact setBuffer_inside s active _ event lb i changed

theorem superFreeAll_buffers (s : Lumberjack) (blocks : List Nat) :
    (s.superFreeAll blocks).buffers = s.buffers := by
  induction blocks generalizing s with
  | nil => rfl
  | cons block rest ih =>
    rw [superFreeAll, List.foldl_cons]
    refine (ih _).trans ?_
    unfold superFreeMem
    dsimp only
    split <;> rfl

theorem delete_buffers (s : Lumberjack) : s.internalDeleteLumberjack.buffers = s.buffers := by
  unfold internalDeleteLumberjack
  dsimp only
  rw [superFreeAll_buffers, superFreeAll_buffers, superFreeAll_buffers, superFreeMem_toList,
    superFreeAll_buffers]

theorem BuffersSound.writesInside (sound : s.BuffersSound) {op : LogOp} (meets : s.Meets op) :
    s.WritesInside op := by
  intro lb i changed
  have unchanged : ∀ t : Lumberjack, s.step op = t → t.buffers = s.buffers →
      i < bufferSize ∧ (lb ∈ s.activeSlot ∨ lb ∈ s.emptyBuffers) := by
    intro t goes same
    rw [goes, same] at changed
    exact absurd rfl changed
  cases op with
  | create tags mems =>
    refine unchanged _ rfl ?_
    show (s.internalCreateLumberjack tags mems).1.buffers = _
    unfold internalCreateLumberjack
    split
    · rfl
    · split
      · rfl
      · dsimp only
        split
        · exact delete_buffers _
        · rfl
  | delete => exact unchanged _ rfl s.delete_buffers
  | control flags =>
    refine unchanged _ rfl ?_
    show (s.internalControlLumberjack flags).1.buffers = _
    unfold internalControlLumberjack
    split <;> rfl
  | log control d cur time =>
    change ((s.logEvent control d cur time).1.buffers lb).data i ≠ _ at changed
    unfold Lumberjack.logEvent at changed
    by_cases off' : s.eventsLogged &&& control = 0
    · rw [if_pos off'] at changed
      exact absurd rfl changed
    · rw [if_neg off'] at changed
      unfold Lumberjack.log at changed
      cases place : s.place with
      | none =>
        rw [place] at changed
        dsimp only at changed
        split at changed <;> exact absurd rfl changed
      | some found =>
        obtain ⟨active, start, empty⟩ := found
        obtain ⟨fits, small⟩ := meets off' active start empty place
        rw [place] at changed
        obtain ⟨inside, rfl⟩ := logAt_inside { s with emptyBuffers := empty } d cur time fits small lb i
          changed
        have created : s.created = true := by
          apply sound.logging
          intro none
          rw [none] at off'
          exact off' (BitVec.zero_and ..)
        obtain ⟨-, -, -, where'⟩ := sound.filling created place (by omega)
        exact ⟨inside, where'⟩
  | obtain time =>
    change ((s.internalObtainLumberjackBuffer time).1.buffers lb).data i ≠ _ at changed
    unfold internalObtainLumberjackBuffer at changed
    cases full : s.fullBuffers with
    | cons first rest =>
      rw [full] at changed
      exact absurd rfl changed
    | nil =>
      rw [full] at changed
      dsimp only at changed
      cases next : s.nextEvent with
      | none =>
        rw [next] at changed
        exact absurd rfl changed
      | some off =>
        obtain ⟨active, slot, few, -⟩ := sound.active off next
        have fits := room_for_end few
        rw [next, slot] at changed
        dsimp only at changed
        split at changed
        · obtain ⟨inside, rfl⟩ := setBuffer_inside s active _ (fun j => store_inside _ off _ (by
            rw [length_headerBytes]
            exact fits) j) lb i changed
          refine ⟨inside, Or.inl ?_⟩
          rw [activeSlot, next, slot]
          exact List.mem_cons_self ..
        · exact absurd rfl changed
  | release released time =>
    refine unchanged _ rfl ?_
    show (s.internalReleaseLumberjackBuffer released time).buffers = _
    unfold internalReleaseLumberjackBuffer
    split
    · rename_i got
      dsimp only
      rw [if_neg (by rw [meets (List.contains_iff_mem.mp got)]; exact Bool.false_ne_true)]
    · rfl

theorem BuffersSound.step (sound : s.BuffersSound) {op : LogOp} (allocates : Allocates op)
    (meets : s.Meets op) : (s.step op).BuffersSound ∧ s.KeepsEvents op := by
  cases op with
  | create tags mems => exact ⟨sound.create tags allocates meets, trivial⟩
  | delete => exact ⟨sound.delete meets, trivial⟩
  | control flags =>
    show (s.internalControlLumberjack flags).1.BuffersSound ∧
      (s.internalControlLumberjack flags).1.contents = s.contents
    unfold internalControlLumberjack
    split
    · rename_i created
      exact ⟨⟨sound.places, sound.once, sound.frees, sound.handed, sound.active, sound.deleted,
        fun _ => created⟩, rfl⟩
    · exact ⟨sound, rfl⟩
  | log control d cur time => exact sound.logEvent control d cur time meets
  | obtain time => exact sound.internalObtain time
  | release lb time => exact sound.release lb time meets

end

def unused (buffers : Nat → Buffer) : Lumberjack where
  buffers
  emptyBuffers := []
  fullBuffers := []
  obtainedBuffers := []
  activeBuffer := none
  overflow := false
  created := false
  eventsLogged := 0
  overflowStartTime := 0
  nextEvent := none
  heap := []
  badFrees := 0
  taken := []

theorem unused_sound (buffers : Nat → Buffer) : (unused buffers).BuffersSound :=
  ⟨List.Perm.refl _, List.nodup_nil, rfl, nofun, nofun, fun _ => rfl, fun logging => absurd rfl logging⟩

end Lumberjack

theorem log_buffers_sound (buffers : Nat → Buffer) {ops : List LogOp}
    (allocates : ∀ op ∈ ops, Lumberjack.Allocates op)
    (meets : Along Lumberjack.step Lumberjack.Meets (.unused buffers) ops) :
    (run Lumberjack.step (.unused buffers) ops).BuffersSound ∧
      Along Lumberjack.step (fun s op => s.KeepsEvents op ∧ s.WritesInside op) (.unused buffers) ops := by
  have typed : Along Lumberjack.step (fun _ op => Lumberjack.Allocates op) (.unused buffers) ops :=
    along_of_forall allocates
  have admitted := along_and typed meets
  constructor
  · exact run_invariant (fun s op sound both => (sound.step both.1 both.2).1)
      (Lumberjack.unused_sound buffers) admitted
  · refine along_of_invariant (fun s op sound both => (sound.step both.1 both.2).1)
      (fun s op sound both => ?_) (Lumberjack.unused_sound buffers) admitted
    exact ⟨(sound.step both.1 both.2).2, sound.writesInside both.2⟩

def sampleEvent : Log.Data := ⟨2, [.string (some [0x6f, 0x6e, 0x65])], by decide, by decide⟩

def sampleLogTask : Log.Task := ⟨7, none⟩

def sampleBuffers : Nat → Log.Buffer := fun _ => ⟨fun _ => 0, 0⟩

def sampleLog : List LogOp :=
  [.create false [0x1000, 0x50000, 0xa0000], .control 1, .log 1 sampleEvent sampleLogTask 0, .delete]

theorem log_buffers_sound_sample :
    (run Lumberjack.step (.unused sampleBuffers) sampleLog).BuffersSound ∧
      Along Lumberjack.step (fun s op => s.KeepsEvents op ∧ s.WritesInside op)
        (.unused sampleBuffers) sampleLog := by
  apply log_buffers_sound
  · intro op member
    rcases List.mem_cons.mp member with rfl | member
    · exact (by decide : [0x1000, 0x50000, 0xa0000].Nodup)
    · simp only [List.mem_cons, List.not_mem_nil, or_false] at member
      rcases member with rfl | rfl | rfl <;> trivial
  · refine ⟨fun _ _ short => absurd short (by decide), trivial, fun _ active off empty place => ?_,
      Or.inl rfl, trivial⟩
    have first : some (0x1000, 0, [0x50000, 0xa0000]) = some (active, off, empty) := place
    cases first
    decide

theorem log_frees_twice :
    ¬(run Lumberjack.step (.unused sampleBuffers)
      (sampleLog ++ [.create false [0xf0000, 0x140000, 0x190000], .delete])).BuffersSound := by
  intro sound
  have frees : (run Lumberjack.step (.unused sampleBuffers)
      (sampleLog ++ [.create false [0xf0000, 0x140000, 0x190000], .delete])).badFrees = 1 := by
    decide +kernel
  rw [sound.frees] at frees
  cases frees

end Portfolio.Kernel
