import Portfolio.Kernel.Messaging
import Portfolio.Lib.Holdings
import Portfolio.Lib.Run
import Portfolio.Lib.Word

set_option autoImplicit false

namespace Portfolio.Kernel

open Portfolio.Lib

def NOSIGNALS : Err := makeKErr 2 0 24
def MSGPORTNOTEMPTY : Err := makeKErr 2 1 10
def CANTSETOWNER : Err := makeKErr 2 1 17

def ILLEGAL_SIG : BitVec 32 := 0x80000000
def SUPER_SIGS : BitVec 32 := 0xff

namespace PortState

def internalAllocSignal (s : PortState) (sig : BitVec 32) (t : Item) : PortState × BitVec 32 :=
  match s.task? t with
  | none => (s, 0)
  | some task =>
    if sig ≠ 0 then
      -- requesting a particular signal
      if sig &&& RESERVED_SIGBITS ≠ 0 then (s, ILLEGALSIGNAL)
      else if sig &&& task.allocatedSigs ≠ 0 then (s, 0)
      else
        (s.modifyTask t fun task =>
          { task with
            allocatedSigs := task.allocatedSigs ||| sig
            sigBits := task.sigBits &&& ~~~sig }, sig)
    else
      -- the first free signal bit there is
      let cursigs := ~~~task.allocatedSigs
      let sig := ~~~(cursigs &&& (cursigs - 1#32))
      if failed sig then (s, 0)
      else
        (s.modifyTask t fun task =>
          { task with
            allocatedSigs := sig
            sigBits := task.sigBits &&& ~~~(sig &&& cursigs) }, sig &&& cursigs)

def ValidateSignal (s : PortState) (bits : BitVec 32) : Err :=
  if bits &&& ILLEGAL_SIG ≠ 0 then ILLEGALSIGNAL
  else if bits &&& SUPER_SIGS ≠ 0 ∧
      ((s.task? s.currentTask).map (·.privileged)).getD false = false then BADPRIV
  else 0

def addPort (s : PortState) (item : Item) (signal : BitVec 32) (allocated : Bool) : PortState :=
  let s := s.setItem item (.port ⟨s.currentTask, false, signal, allocated⟩)
  { s with
    links := (s.links.setNext (.head (.msgs item)) (.tail (.msgs item))).setPrev
      (.tail (.msgs item)) (.head (.msgs item)) }

/-- `internalCreateMsgPort`. `signal` is the value of the `CREATEPORT_TAG_SIGNAL` tag, 0 if
there is none. -/
def internalCreateMsgPort (s : PortState) (item : Item) (signal : BitVec 32) :
    PortState × Err :=
  if signal = 0 then
    let (s, sig) := s.internalAllocSignal 0 s.currentTask
    if sig = 0 then (s, NOSIGNALS) else (s.addPort item sig true, item)
  else
    let ret := s.ValidateSignal signal
    if failed ret then (s, ret) else (s.addPort item signal false, item)

/-- `CreateItem` of a port: the new item gets a free number. `slot` says whether
`AllocItemSlot` finds a slot in the resource table of the task. -/
def createPortItem (s : PortState) (item : Item) (signal : BitVec 32) (slot : Bool) :
    PortState × Err :=
  if item = 0 ∨ (s.items item).isSome then (s, BADITEM)
  else if !slot then (s, RSRCTBLOVRFLW)
  else s.internalCreateMsgPort item signal

def noMessages (s : PortState) (port : Item) : Bool :=
  s.links.next (.head (.msgs port)) == .tail (.msgs port)

def internalSetMsgPortOwner (s : PortState) (port newOwner : Item) : PortState × Err :=
  match s.port? port with
  | none => (s, BADITEM)
  | some p =>
    if !p.signalAllocated then (s, CANTSETOWNER)
    else
      let (s, sigs) := s.internalAllocSignal 0 newOwner
      let sigs := if sigs = 0 then NOSIGNALS else sigs
      if failed sigs then (s, sigs)
      else if s.noMessages port then
        -- `externalFreeSignal`
        ((s.setItem port (.port { p with signal := sigs })).internalFreeSignal p.signal
          s.currentTask, 0)
      else (s.internalFreeSignal sigs newOwner, MSGPORTNOTEMPTY)

def mayOwn (s : PortState) (p : MsgPort) : Bool :=
  s.currentTask == p.owner || ((s.task? s.currentTask).map (·.privileged)).getD false

def setPortOwner (s : PortState) (port newOwner : Item) (slot : Bool) : PortState × Err :=
  match s.port? port, s.task? newOwner with
  | some p, some _ =>
    if !s.mayOwn p then (s, BADPRIV)
    else if !slot then (s, RSRCTBLOVRFLW)
    else
      let (s, ret) := s.internalSetMsgPortOwner port newOwner
      if failed ret then (s, ret)
      else
        match s.port? port with
        | some p => (s.setItem port (.port { p with owner := newOwner }), ret)
        | none => (s, ret)
  | _, _ => (s, BADITEM)

def hasFreeSignal (task : PortTask) : Bool := ~~~task.allocatedSigs &&& 0x7fffffff#32 != 0

def acceptsOwner (s : PortState) (port newOwner : Item) (slot : Bool) : Bool :=
  match s.port? port, s.task? newOwner with
  | some p, some task =>
    s.mayOwn p && slot && p.signalAllocated && hasFreeSignal task && s.noMessages port
  | _, _ => false

end PortState

/-- `own` is history: the signals that each task has allocated for itself. -/
structure SignalSystem where
  msgs : MsgSystem
  own : Item → BitVec 32

inductive SignalOp where
  | msg (op : MsgOp)
  | createPort (t item : Item) (signal : BitVec 32) (slot : Bool)
  | setPortOwner (t port newOwner : Item) (slot : Bool)
  | allocSignal (t : Item) (sigMask : BitVec 32)
  deriving DecidableEq

namespace SignalSystem

def state (w : SignalSystem) : PortState := w.msgs.state

def runs (w : SignalSystem) (t : Item) : Bool :=
  w.msgs.call.isEmpty &&
    match w.state.task? t with
    | some task => !task.asleep && task.waitItem == 0xffffffff
    | none => false

def setState (w : SignalSystem) (s : PortState) : SignalSystem :=
  { w with msgs := { w.msgs with state := s } }

def step (w : SignalSystem) : SignalOp → SignalSystem
  | .msg op =>
    match op with
    -- ports are created below
    | .enter _ (.createMsgPort ..) => w
    | op => { w with msgs := w.msgs.step op }
  | .createPort t item signal slot =>
    if w.runs t then
      w.setState (({ w.state with currentTask := t } : PortState).createPortItem item signal slot).1
    else w
  | .setPortOwner t port newOwner slot =>
    if w.runs t then
      w.setState
        (({ w.state with currentTask := t } : PortState).setPortOwner port newOwner slot).1
    else w
  | .allocSignal t sigMask =>
    if w.runs t then
      let (s, sigs) := ({ w.state with currentTask := t } : PortState).internalAllocSignal sigMask t
      { w.setState s with
        own := Function.update w.own t (if failed sigs then w.own t else w.own t ||| sigs) }
    else w

end SignalSystem

def bitsOf (mask : BitVec 32) : Set Nat := { k | mask.getLsbD k = true }

def MsgPort.held (p : MsgPort) : Option (Item × Nat) :=
  if p.signalAllocated then some (p.owner, p.signal.ctz.toNat) else none

namespace PortState

def allocated (s : PortState) : Set (Item × Nat) :=
  { x | ∃ task, s.task? x.1 = some task ∧ x.2 ∈ bitsOf task.allocatedSigs }

def held (s : PortState) (i : Item) : Option (Item × Nat) := (s.port? i).bind MsgPort.held

def ownSignals (own : Item → BitVec 32) : Set (Item × Nat) := { x | x.2 ∈ bitsOf (own x.1) }

end PortState

structure SignalsKept (s : PortState) (own : Item → BitVec 32) : Prop where
  accounted : Allotted s.allocated (PortState.ownSignals own) s.held
  oneBit : ∀ i p, s.port? i = some p → p.signalAllocated = true →
    ∃ k, 8 ≤ k ∧ k < 31 ∧ p.signal = BitVec.twoPow 32 k
  system : ∀ t task, s.task? t = some task → own t &&& PortState.RESERVED_SIGBITS = SUPER_SIGS

section Bits

variable {a b : BitVec 32} {k : Nat}

theorem bitsOf_or : bitsOf (a ||| b) = bitsOf a ∪ bitsOf b := by
  ext k
  simp [bitsOf]

theorem bitsOf_and : bitsOf (a &&& b) = bitsOf a ∩ bitsOf b := by
  ext k
  simp [bitsOf]

theorem bitsOf_andNot : bitsOf (a &&& ~~~b) = bitsOf a \ bitsOf b := by
  ext k
  have below : a.getLsbD k = true → k < 32 := BitVec.lt_of_getLsbD
  simp only [bitsOf, Set.mem_ofPred_eq, Set.mem_sdiff, BitVec.getLsbD_and, BitVec.getLsbD_not]
  cases set : a.getLsbD k with
  | true => simp [below set]
  | false => simp

theorem bitsOf_twoPow (inside : k < 32) : bitsOf (BitVec.twoPow 32 k) = {k} := by
  ext j
  simp only [bitsOf, Set.mem_ofPred_eq, BitVec.getLsbD_twoPow, Set.mem_singleton_iff]
  simp [inside, eq_comm]

theorem twoPow_ne_zero (inside : k < 32) : BitVec.twoPow 32 k ≠ 0 := by
  intro zero
  have bit := congrArg (·.getLsbD k) zero
  simp [inside] at bit

theorem ctz_twoPow (inside : k < 32) : (BitVec.twoPow 32 k).ctz.toNat = k := by
  have lowest : (BitVec.twoPow 32 k).ctz.toNat ∈ bitsOf (BitVec.twoPow 32 k) :=
    BitVec.getLsbD_true_ctz_of_ne_zero (twoPow_ne_zero inside)
  rwa [bitsOf_twoPow inside] at lowest

theorem firstFree (a : BitVec 32) :
    failed (~~~(~~~a &&& (~~~a - 1#32))) = true ∨
      failed (~~~(~~~a &&& (~~~a - 1#32))) = false ∧
      ∃ k, k < 31 ∧ k ∉ bitsOf a ∧ ~~~(~~~a &&& (~~~a - 1#32)) = a ||| BitVec.twoPow 32 k ∧
        ~~~(~~~a &&& (~~~a - 1#32)) &&& ~~~a = BitVec.twoPow 32 k := by
  cases none : failed (~~~(~~~a &&& (~~~a - 1#32))) with
  | true => exact .inl rfl
  | false =>
    refine .inr ⟨rfl, ?_⟩
    have full : ~~~a ≠ 0#32 := by
      intro full
      rw [full] at none
      cases none
    have cleared := getLsbD_and_pred full
    have free := BitVec.getLsbD_true_ctz_of_ne_zero full
    have inside := BitVec.lt_of_getLsbD free
    generalize (~~~a).ctz.toNat = k at cleared free inside
    have clear : a.getLsbD k = false := by
      rw [BitVec.getLsbD_not] at free
      simpa [inside] using free
    have sum : ~~~(~~~a &&& (~~~a - 1#32)) = a ||| BitVec.twoPow 32 k := by
      apply BitVec.eq_of_getLsbD_eq
      intro i below
      rw [BitVec.getLsbD_not, cleared, BitVec.getLsbD_not, BitVec.getLsbD_or,
        BitVec.getLsbD_twoPow]
      by_cases same : i = k
      · subst same
        simp [below]
      · simp [below, same, Ne.symm same]
    rw [sum] at none ⊢
    have last : k ≠ 31 := by
      rintro rfl
      rw [failed, BitVec.msb_eq_getLsbD_last, BitVec.getLsbD_or, BitVec.getLsbD_twoPow] at none
      simp at none
    have unset : k ∉ bitsOf a := by
      intro set
      rw [bitsOf, Set.mem_ofPred_eq, clear] at set
      cases set
    refine ⟨k, by omega, unset, rfl, ?_⟩
    apply BitVec.eq_of_getLsbD_eq
    intro i below
    rw [BitVec.getLsbD_and, BitVec.getLsbD_or, BitVec.getLsbD_not, BitVec.getLsbD_twoPow]
    by_cases same : k = i
    · subst same
      rw [clear]
      simp [below]
    · simp [below, same]

theorem noneFree (fails : failed (~~~(~~~a &&& (~~~a - 1#32))) = true) :
    31 ∈ bitsOf a ∨ ∀ k < 31, k ∈ bitsOf a := by
  by_cases last : a.getLsbD 31 = true
  · exact .inl last
  · have full : ~~~a ≠ 0#32 := by
      intro full
      have bit := congrArg (·.getLsbD 31) full
      simp only [BitVec.getLsbD_not, last] at bit
      simp at bit
    rw [failed, BitVec.msb_eq_getLsbD_last, BitVec.getLsbD_not, getLsbD_and_pred full,
      BitVec.getLsbD_not] at fails
    have lowest : 31 = (~~~a).ctz.toNat := by
      by_contra other
      have clear : a.getLsbD 31 = false := by simpa using last
      rw [clear] at fails
      simp [other] at fails
    refine .inr fun k below => ?_
    have clear := BitVec.getLsbD_false_of_lt_ctz (lowest ▸ below)
    rw [BitVec.getLsbD_not] at clear
    simpa [(by omega : k < 32), bitsOf] using clear

theorem free_granted (clear : k ∉ bitsOf a) :
    (a ||| BitVec.twoPow 32 k) &&& ~~~BitVec.twoPow 32 k = a := by
  have unset : a.getLsbD k = false := by simpa [bitsOf] using clear
  apply BitVec.eq_of_getLsbD_eq
  intro i below
  rw [BitVec.getLsbD_and, BitVec.getLsbD_or, BitVec.getLsbD_not, BitVec.getLsbD_twoPow]
  by_cases same : k = i
  · subst same
    rw [unset]
    simp [below]
  · simp [below, same]

end Bits

namespace PortState

def grantSignal (s : PortState) (t : Item) (sig : BitVec 32) : PortState :=
  s.modifyTask t fun task =>
    { task with
      allocatedSigs := task.allocatedSigs ||| sig
      sigBits := task.sigBits &&& ~~~sig }

variable {s s' : PortState} {own : Item → BitVec 32} {t i : Item} {task : PortTask} {p : MsgPort}
  {sig : BitVec 32} {k : Nat}

theorem internalAllocSignal_zero (found : s.task? t = some task) :
    (31 ∈ bitsOf task.allocatedSigs ∨ ∀ k < 31, k ∈ bitsOf task.allocatedSigs) ∧
        s.internalAllocSignal 0 t = (s, 0) ∨
      ∃ k, k < 31 ∧ k ∉ bitsOf task.allocatedSigs ∧
        s.internalAllocSignal 0 t =
          (s.grantSignal t (BitVec.twoPow 32 k), BitVec.twoPow 32 k) := by
  simp only [internalAllocSignal, found, ne_eq, not_true_eq_false, if_false]
  obtain full | ⟨some, k, inside, clear, sum, bit⟩ := firstFree task.allocatedSigs
  · exact .inl ⟨noneFree full, if_pos full⟩
  · refine .inr ⟨k, inside, clear, ?_⟩
    rw [if_neg (by simp [some]), bit]
    simp only [grantSignal, modifyTask, found, sum]

theorem allocated_grant (found : s.task? t = some task) :
    (s.grantSignal t sig).allocated = s.allocated ∪ { x | x.1 = t ∧ x.2 ∈ bitsOf sig } := by
  ext ⟨u, k⟩
  simp only [allocated, grantSignal, Set.mem_union, Set.mem_ofPred_eq, task?_modifyTask]
  by_cases here : u = t
  · subst here
    simp only [if_true, found, Option.map_some, Option.some.injEq, exists_eq_left', bitsOf_or,
      Set.mem_union, true_and]
  · simp [here]

theorem allocated_grant_bit (found : s.task? t = some task) (inside : k < 32) :
    (s.grantSignal t (BitVec.twoPow 32 k)).allocated = insert (t, k) s.allocated := by
  rw [allocated_grant found, bitsOf_twoPow inside, Set.insert_eq, Set.union_comm]
  congr 1
  ext ⟨u, j⟩
  simp

theorem held_grant : (s.grantSignal t sig).held = s.held := by
  funext j
  simp [held, grantSignal]

theorem held_free : (s.internalFreeSignal sig t).held = s.held := by
  funext j
  simp [held, internalFreeSignal]

theorem twoPow_user (low : 8 ≤ k) (high : k < 31) :
    BitVec.twoPow 32 k &&& RESERVED_SIGBITS = 0#32 := by
  have user : ∀ k < 31, 8 ≤ k → RESERVED_SIGBITS.getLsbD k = false := by decide
  rw [BitVec.and_comm, BitVec.and_twoPow, user k high low]
  rfl

theorem internalFreeSignal_bit (low : 8 ≤ k) (high : k < 31) (a : BitVec 32) :
    (BitVec.twoPow 32 k &&& RESERVED_SIGBITS ≠ 0 ∨ ~~~a &&& BitVec.twoPow 32 k ≠ 0) ↔
      k ∉ bitsOf a := by
  have nonzero : BitVec.twoPow 32 k ≠ 0#32 := twoPow_ne_zero (by omega)
  rw [twoPow_user low high, BitVec.and_twoPow, BitVec.getLsbD_not]
  simp only [ne_eq, bitsOf, Set.mem_ofPred_eq]
  cases a.getLsbD k with
  | true => simp
  | false => simp [(by omega : k < 32), nonzero]

theorem task?_free_bit (low : 8 ≤ k) (high : k < 31) (found : s.task? t = some task)
    (there : k ∈ bitsOf task.allocatedSigs) (u : Item) :
    (s.internalFreeSignal (BitVec.twoPow 32 k) t).task? u =
      if u = t then
        some { task with
          allocatedSigs := task.allocatedSigs &&& ~~~BitVec.twoPow 32 k
          sigBits := task.sigBits &&& ~~~BitVec.twoPow 32 k }
      else s.task? u := by
  have accepted := (internalFreeSignal_bit low high task.allocatedSigs).not_left.mpr there
  rw [internalFreeSignal, task?_modifyTask, found, Option.map_some, if_neg accepted]

theorem allocated_free (low : 8 ≤ k) (high : k < 31) (there : (t, k) ∈ s.allocated) :
    (s.internalFreeSignal (BitVec.twoPow 32 k) t).allocated = s.allocated \ {(t, k)} := by
  obtain ⟨task, found, set⟩ := there
  ext ⟨u, j⟩
  simp only [allocated, Set.mem_sdiff, Set.mem_ofPred_eq, task?_free_bit low high found set,
    Set.mem_singleton_iff, Prod.mk.injEq]
  by_cases here : u = t
  · subst here
    simp only [if_true, found, Option.some.injEq, exists_eq_left', bitsOf_andNot,
      bitsOf_twoPow (by omega : k < 32), Set.mem_sdiff, Set.mem_singleton_iff, true_and]
  · simp [here]

theorem allocated_free_others {x : Item × Nat} (other : x.1 ≠ t) :
    x ∈ (s.internalFreeSignal sig t).allocated ↔ x ∈ s.allocated := by
  simp only [allocated, internalFreeSignal, Set.mem_ofPred_eq, task?_modifyTask, if_neg other]

theorem held_setItem : (s.setItem i (.port p)).held = Function.update s.held i p.held := by
  funext j
  by_cases same : j = i <;> simp [held, same]

theorem allocated_setItem (noTask : s.task? i = none) :
    (s.setItem i (.port p)).allocated = s.allocated := by
  ext ⟨u, k⟩
  simp only [allocated, Set.mem_ofPred_eq, task?_setItem]
  by_cases same : u = i
  · subst same
    simp [noTask]
  · simp [same]

theorem allocated_addPort {allocated : Bool} (noTask : s.task? i = none) :
    (s.addPort i sig allocated).allocated = s.allocated :=
  allocated_setItem noTask

theorem held_addPort {allocated : Bool} : (s.addPort i sig allocated).held =
    Function.update s.held i (MsgPort.held ⟨s.currentTask, false, sig, allocated⟩) :=
  held_setItem

theorem port?_addPort {allocated : Bool} (j : Item) : (s.addPort i sig allocated).port? j =
    if j = i then some ⟨s.currentTask, false, sig, allocated⟩ else s.port? j :=
  port?_setItem _

theorem task?_addPort {allocated : Bool} (j : Item) : (s.addPort i sig allocated).task? j =
    if j = i then none else s.task? j :=
  task?_setItem _

end PortState

def MsgPort.signals (p : MsgPort) : Item × BitVec 32 × Bool := (p.owner, p.signal, p.signalAllocated)

structure SameSignals (s s' : PortState) : Prop where
  sigs : ∀ i, (s'.task? i).map (·.allocatedSigs) = (s.task? i).map (·.allocatedSigs)
  ports : ∀ i, (s'.port? i).map MsgPort.signals = (s.port? i).map MsgPort.signals

namespace SameSignals

variable {s s' s'' : PortState}

theorem refl : SameSignals s s := ⟨fun _ => rfl, fun _ => rfl⟩

theorem trans (first : SameSignals s s') (second : SameSignals s' s'') : SameSignals s s'' :=
  ⟨fun i => (second.sigs i).trans (first.sigs i), fun i => (second.ports i).trans (first.ports i)⟩

theorem allocated (same : SameSignals s s') : s'.allocated = s.allocated := by
  ext ⟨t, k⟩
  have mapped : ∀ s : PortState, (t, k) ∈ s.allocated ↔
      ∃ sigs, (s.task? t).map (·.allocatedSigs) = some sigs ∧ k ∈ bitsOf sigs := by
    intro s
    simp [PortState.allocated]
  rw [mapped, mapped, same.sigs]

theorem held (same : SameSignals s s') : s'.held = s.held := by
  funext i
  have mapped : ∀ s : PortState, s.held i = ((s.port? i).map MsgPort.signals).bind
      fun x => if x.2.2 then some (x.1, x.2.1.ctz.toNat) else none := by
    intro s
    cases port : s.port? i <;> simp [PortState.held, port, MsgPort.held, MsgPort.signals]
  rw [mapped, mapped, same.ports]

end SameSignals

namespace SignalsKept

variable {s s' : PortState} {own : Item → BitVec 32} {t i port newOwner : Item} {task : PortTask}
  {p : MsgPort} {sig : BitVec 32} {k : Nat} {slot : Bool}

theorem congr (kept : SignalsKept s own) (same : SameSignals s s') : SignalsKept s' own where
  accounted := by
    rw [same.allocated, same.held]
    exact kept.accounted
  oneBit i p found allocated := by
    have signals := same.ports i
    rw [found, Option.map_some] at signals
    obtain ⟨q, before, equal⟩ := Option.map_eq_some_iff.mp signals.symm
    obtain ⟨k, low, high, bit⟩ := kept.oneBit i q before
      ((congrArg (·.2.2) equal).trans allocated)
    exact ⟨k, low, high, (congrArg (·.2.1) equal).symm.trans bit⟩
  system t task found := by
    have sigs := same.sigs t
    rw [found, Option.map_some] at sigs
    obtain ⟨task', before, -⟩ := Option.map_eq_some_iff.mp sigs.symm
    exact kept.system t task' before

theorem user_bit (kept : SignalsKept s own) (found : s.task? t = some task) (inside : k < 31)
    (clear : k ∉ bitsOf task.allocatedSigs) : 8 ≤ k ∧ (t, k) ∉ s.allocated := by
  have fresh : (t, k) ∉ s.allocated := by
    rintro ⟨task', found', set⟩
    rw [found] at found'
    cases found'
    exact clear set
  refine ⟨?_, fresh⟩
  by_contra low
  have system : ∀ k < 8, SUPER_SIGS.getLsbD k = true := by decide
  have ownBit := system k (by omega)
  rw [← kept.system t task found, BitVec.getLsbD_and, Bool.and_eq_true] at ownBit
  exact fresh (by rw [kept.accounted.exact]; exact .inl ownBit.1)

theorem held_port (kept : SignalsKept s own) (found : s.port? port = some p)
    (allocated : p.signalAllocated = true) :
    ∃ k, 8 ≤ k ∧ k < 31 ∧ p.signal = BitVec.twoPow 32 k ∧ s.held port = some (p.owner, k) := by
  obtain ⟨k, low, high, bit⟩ := kept.oneBit port p found allocated
  refine ⟨k, low, high, bit, ?_⟩
  rw [PortState.held, found, Option.bind_some, MsgPort.held, allocated, if_pos rfl, bit,
    ctz_twoPow (by omega)]

theorem changed (kept : SignalsKept s own) (i : Item)
    (accounted : Allotted s'.allocated (PortState.ownSignals own) s'.held)
    (tasks : ∀ t, (s'.task? t).isSome → (s.task? t).isSome)
    (others : ∀ j, j ≠ i → s'.port? j = s.port? j)
    (bit : ∀ p, s'.port? i = some p → p.signalAllocated = true →
      ∃ k, 8 ≤ k ∧ k < 31 ∧ p.signal = BitVec.twoPow 32 k) : SignalsKept s' own where
  accounted := accounted
  oneBit j p found := by
    by_cases same : j = i
    · subst same
      exact bit p found
    · exact kept.oneBit j p (by rwa [← others j same])
  system t task found := by
    obtain ⟨task', before⟩ := Option.isSome_iff_exists.mp (tasks t (by rw [found]; rfl))
    exact kept.system t task' before

theorem createPortItem (kept : SignalsKept s own) (current : (s.task? s.currentTask).isSome)
    (item : Item) (signal : BitVec 32) (slot : Bool) :
    SignalsKept (s.createPortItem item signal slot).1 own := by
  obtain ⟨task, isTask⟩ := Option.isSome_iff_exists.mp current
  unfold PortState.createPortItem
  split
  · exact kept
  · next free =>
    push Not at free
    have noItem : s.items item = none := by simpa using free.2
    have noTask : s.task? item = none := by simp [PortState.task?, noItem]
    have empty : s.held item = none := by simp [PortState.held, PortState.port?, noItem]
    have other : s.currentTask ≠ item := by
      rintro rfl
      rw [noTask] at isTask
      cases isTask
    split
    · exact kept
    · unfold PortState.internalCreateMsgPort
      split
      · obtain ⟨-, full⟩ | ⟨k, inside, clear, granted⟩ :=
          PortState.internalAllocSignal_zero isTask
        · simp only [full, if_true]
          exact kept
        · simp only [granted]
          rw [if_neg (twoPow_ne_zero (by omega))]
          obtain ⟨low, fresh⟩ := kept.user_bit isTask inside clear
          have noTaskG : (s.grantSignal s.currentTask (BitVec.twoPow 32 k)).task? item = none := by
            simp [PortState.grantSignal, Ne.symm other, noTask]
          have current : (s.grantSignal s.currentTask (BitVec.twoPow 32 k)).currentTask =
              s.currentTask := by simp [PortState.grantSignal]
          refine kept.changed item ?_ (fun t isSome => ?_) (fun j elsewhere => ?_)
            fun p found _ => ?_
          · rw [PortState.allocated_addPort noTaskG, PortState.held_addPort,
              PortState.allocated_grant_bit isTask (by omega), PortState.held_grant, current]
            have bit : MsgPort.held ⟨s.currentTask, false, BitVec.twoPow 32 k, true⟩ =
                some (s.currentTask, k) := by
              rw [MsgPort.held, if_pos rfl, ctz_twoPow (by omega)]
            rw [bit]
            exact kept.accounted.acquire empty fresh
          · rw [PortState.task?_addPort] at isSome
            split at isSome
            · cases isSome
            · by_cases same : t = s.currentTask
              · rw [same, isTask]
                rfl
              · simpa [PortState.grantSignal, same] using isSome
          · rw [PortState.port?_addPort, if_neg elsewhere]
            simp [PortState.grantSignal]
          · rw [PortState.port?_addPort, if_pos rfl, Option.some.injEq] at found
            exact ⟨k, low, inside, found ▸ rfl⟩
      · simp only
        split
        · exact kept
        · refine kept.changed item ?_ (fun t isSome => ?_) (fun j elsewhere => ?_)
            fun p found allocated => ?_
          · have none : MsgPort.held ⟨s.currentTask, false, signal, false⟩ = none := rfl
            rw [PortState.allocated_addPort noTask, PortState.held_addPort, none,
              Function.update_eq_self_iff.mpr empty.symm]
            exact kept.accounted
          · rw [PortState.task?_addPort] at isSome
            split at isSome
            · cases isSome
            · exact isSome
          · rw [PortState.port?_addPort, if_neg elsewhere]
          · rw [PortState.port?_addPort, if_pos rfl, Option.some.injEq] at found
            rw [← found] at allocated
            cases allocated

theorem hasFreeSignal_iff : PortState.hasFreeSignal task = true ↔ ∃ k < 31, k ∉ bitsOf task.allocatedSigs := by
  have mask : ∀ k < 32, (0x7fffffff#32).getLsbD k = decide (k < 31) := by decide
  rw [PortState.hasFreeSignal, bne_iff_ne, ne_eq]
  constructor
  · intro nonzero
    by_contra all
    push Not at all
    refine nonzero (BitVec.eq_of_getLsbD_eq fun k below => ?_)
    rw [BitVec.getLsbD_and, mask k below, BitVec.getLsbD_not]
    by_cases last : k < 31
    · have set : task.allocatedSigs.getLsbD k = true := all k last
      simp [set]
    · simp [last]
  · rintro ⟨k, below, clear⟩ zero
    have bit := congrArg (·.getLsbD k) zero
    have unset : task.allocatedSigs.getLsbD k = false := by simpa [bitsOf] using clear
    simp only [BitVec.getLsbD_and, mask k (by omega), BitVec.getLsbD_not, unset] at bit
    simp [below, (by omega : k < 32)] at bit

end SignalsKept

namespace PortState

def givePort (s : PortState) (port newOwner : Item) (p : MsgPort) (bit : BitVec 32) : PortState :=
  ((((s.grantSignal newOwner bit).setItem port (.port { p with signal := bit })).internalFreeSignal
    p.signal s.currentTask)).setItem port (.port { p with signal := bit, owner := newOwner })

end PortState

namespace SignalsKept

variable {s s' : PortState} {own : Item → BitVec 32} {t i port newOwner : Item} {task : PortTask}
  {p : MsgPort} {sig : BitVec 32} {k : Nat} {slot : Bool}

theorem highest_clear (kept : SignalsKept s own) (found : s.task? t = some task) :
    31 ∉ bitsOf task.allocatedSigs := by
  intro set
  have there : (t, 31) ∈ s.allocated := ⟨task, found, set⟩
  rw [kept.accounted.exact] at there
  obtain isOwn | ⟨i, holds⟩ := there
  · have system := congrArg (·.getLsbD 31) (kept.system t task found)
    have bit : (own t).getLsbD 31 = true := isOwn
    simp only [BitVec.getLsbD_and, bit] at system
    exact absurd system (by decide)
  · cases portS : s.port? i with
    | none => simp [PortState.held, portS] at holds
    | some p =>
      cases auto : p.signalAllocated with
      | false => simp [PortState.held, portS, MsgPort.held, auto] at holds
      | true =>
        obtain ⟨k, -, high, -, heldS⟩ := kept.held_port portS auto
        rw [heldS, Option.some.injEq, Prod.mk.injEq] at holds
        omega

variable (sig) in
theorem internalAllocSignal_cases (kept : SignalsKept s own) (found : s.task? t = some task) :
    ((s.internalAllocSignal sig t).1 = s ∧
        (failed (s.internalAllocSignal sig t).2 = true ∨ (s.internalAllocSignal sig t).2 = 0)) ∨
      ∃ got, s.internalAllocSignal sig t = (s.grantSignal t got, got) ∧ failed got = false ∧
        got &&& PortState.RESERVED_SIGBITS = 0#32 ∧
        ∀ k ∈ bitsOf got, k ∉ bitsOf task.allocatedSigs := by
  by_cases any : sig = 0
  · subst any
    obtain ⟨-, full⟩ | ⟨k, inside, clear, granted⟩ := PortState.internalAllocSignal_zero found
    · rw [full]
      exact .inl ⟨rfl, .inr rfl⟩
    · obtain ⟨low, -⟩ := kept.user_bit found inside clear
      refine .inr ⟨_, granted, ?_, PortState.twoPow_user low inside, fun j bit => ?_⟩
      · rw [failed, BitVec.msb_eq_getLsbD_last, BitVec.getLsbD_twoPow]
        simp
        omega
      · rw [bitsOf_twoPow (by omega), Set.mem_singleton_iff] at bit
        rwa [bit]
  · simp only [PortState.internalAllocSignal, found, ne_eq, any, not_false_eq_true, if_true]
    by_cases reserved : sig &&& PortState.RESERVED_SIGBITS = 0
    · by_cases taken : sig &&& task.allocatedSigs = 0
      · refine .inr ⟨sig, ?_, ?_, reserved, fun k bit set => ?_⟩
        · rw [if_neg (not_not.mpr reserved), if_neg (not_not.mpr taken)]
          rfl
        · have highest := congrArg (·.getLsbD 31) reserved
          have mask : PortState.RESERVED_SIGBITS.getLsbD 31 = true := by decide
          simp only [BitVec.getLsbD_and, mask, Bool.and_true] at highest
          rw [failed, BitVec.msb_eq_getLsbD_last]
          exact highest.trans (by decide)
        · have both := congrArg (·.getLsbD k) taken
          have bitS : sig.getLsbD k = true := bit
          have bitA : task.allocatedSigs.getLsbD k = true := set
          simp [bitS, bitA] at both
      · rw [if_neg (not_not.mpr reserved), if_pos taken]
        exact .inl ⟨rfl, .inr rfl⟩
    · rw [if_pos reserved]
      exact .inl ⟨rfl, .inl (by decide : failed ILLEGALSIGNAL = true)⟩

theorem grant (kept : SignalsKept s own) (found : s.task? t = some task)
    (user : sig &&& PortState.RESERVED_SIGBITS = 0#32)
    (fresh : ∀ k ∈ bitsOf sig, k ∉ bitsOf task.allocatedSigs) :
    SignalsKept (s.grantSignal t sig) (Function.update own t (own t ||| sig)) where
  accounted := by
    have owns : PortState.ownSignals (Function.update own t (own t ||| sig)) =
        PortState.ownSignals own ∪ { x | x.1 = t ∧ x.2 ∈ bitsOf sig } := by
      ext ⟨u, k⟩
      by_cases here : u = t
      · subst here
        simp [PortState.ownSignals, bitsOf_or]
      · simp [PortState.ownSignals, here]
    rw [PortState.allocated_grant found, PortState.held_grant, owns]
    refine kept.accounted.grow ?_
    rintro ⟨u, k⟩ ⟨here, bit⟩ ⟨task', found', set⟩
    simp only at here found' set bit
    subst here
    rw [found] at found'
    cases found'
    exact fresh k bit set
  oneBit i p portS := kept.oneBit i p (by simpa [PortState.grantSignal] using portS)
  system u task' found' := by
    have there : (s.task? u).isSome := by
      have isSome : ((s.grantSignal t sig).task? u).isSome := by rw [found']; rfl
      rwa [PortState.grantSignal, PortState.isSome_task?_modifyTask] at isSome
    obtain ⟨task₀, before⟩ := Option.isSome_iff_exists.mp there
    by_cases here : u = t
    · subst here
      rw [Function.update_self, BitVec.and_or_distrib_right, user, BitVec.or_zero]
      exact kept.system u task₀ before
    · rw [Function.update_of_ne here]
      exact kept.system u task₀ before

variable (sig) in
theorem allocSignal (kept : SignalsKept s own) (found : s.task? t = some task) :
    SignalsKept (s.internalAllocSignal sig t).1 (Function.update own t
      (if failed (s.internalAllocSignal sig t).2 then own t
      else own t ||| (s.internalAllocSignal sig t).2)) := by
  obtain ⟨same, none⟩ | ⟨got, granted, succeeds, user, fresh⟩ :=
    kept.internalAllocSignal_cases sig found
  · have unchanged : (if failed (s.internalAllocSignal sig t).2 then own t
        else own t ||| (s.internalAllocSignal sig t).2) = own t := by
      obtain fails | zero := none
      · exact if_pos fails
      · rw [zero]
        simp
    rw [unchanged, Function.update_eq_self, same]
    exact kept
  · rw [granted]
    simp only [succeeds, Bool.false_eq_true, if_false]
    exact kept.grant found user fresh

theorem grant_free (found : s.task? t = some task) (low : 8 ≤ k) (high : k < 31)
    (clear : k ∉ bitsOf task.allocatedSigs) :
    SameSignals s ((s.grantSignal t (BitVec.twoPow 32 k)).internalFreeSignal
      (BitVec.twoPow 32 k) t) := by
  have here : (s.grantSignal t (BitVec.twoPow 32 k)).task? t =
      some { task with
        allocatedSigs := task.allocatedSigs ||| BitVec.twoPow 32 k
        sigBits := task.sigBits &&& ~~~BitVec.twoPow 32 k } := by
    simp [PortState.grantSignal, found]
  have there : k ∈ bitsOf (task.allocatedSigs ||| BitVec.twoPow 32 k) := by
    rw [bitsOf_or, bitsOf_twoPow (by omega)]
    exact .inr rfl
  refine ⟨fun i => ?_, fun i => ?_⟩
  · rw [PortState.task?_free_bit low high here there]
    by_cases same : i = t
    · subst same
      rw [if_pos rfl, found, Option.map_some, Option.map_some, free_granted clear]
    · rw [if_neg same, PortState.grantSignal, PortState.task?_modifyTask, if_neg same]
  · simp [PortState.internalFreeSignal, PortState.grantSignal]

variable (port newOwner) in
theorem internalSetMsgPortOwner_cases (kept : SignalsKept s own) (portS : s.port? port = some p)
    (auto : p.signalAllocated = true) (isTask : s.task? newOwner = some task) :
    ((PortState.hasFreeSignal task && s.noMessages port) = false ∧
        failed (s.internalSetMsgPortOwner port newOwner).2 = true ∧
        SameSignals s (s.internalSetMsgPortOwner port newOwner).1) ∨
      (PortState.hasFreeSignal task && s.noMessages port) = true ∧
        ∃ k, 8 ≤ k ∧ k < 31 ∧ (newOwner, k) ∉ s.allocated ∧
          s.internalSetMsgPortOwner port newOwner =
            (((s.grantSignal newOwner (BitVec.twoPow 32 k)).setItem port
              (.port { p with signal := BitVec.twoPow 32 k })).internalFreeSignal p.signal
                s.currentTask, 0) := by
  simp only [PortState.internalSetMsgPortOwner, portS, auto, Bool.not_true, Bool.false_eq_true,
    if_false]
  obtain ⟨none, full⟩ | ⟨k, inside, clear, granted⟩ := PortState.internalAllocSignal_zero isTask
  · have taken : PortState.hasFreeSignal task = false := by
      by_contra free
      rw [Bool.not_eq_false, hasFreeSignal_iff] at free
      obtain ⟨k, inside, clear⟩ := free
      obtain highest | all := none
      · exact kept.highest_clear isTask highest
      · exact clear (all k inside)
    have fails : failed NOSIGNALS = true := by decide
    simp only [full, if_true, fails, taken, Bool.false_and]
    exact .inl ⟨trivial, trivial, SameSignals.refl⟩
  · obtain ⟨low, fresh⟩ := kept.user_bit isTask inside clear
    have free : PortState.hasFreeSignal task = true := hasFreeSignal_iff.mpr ⟨k, inside, clear⟩
    have positive : failed (BitVec.twoPow 32 k) = false := by
      rw [failed, BitVec.msb_eq_getLsbD_last, BitVec.getLsbD_twoPow]
      simp
      omega
    have messages : (s.grantSignal newOwner (BitVec.twoPow 32 k)).noMessages port =
        s.noMessages port := by
      simp [PortState.noMessages, PortState.grantSignal]
    simp only [granted, twoPow_ne_zero (by omega : k < 32), if_false, positive, messages,
      Bool.false_eq_true]
    rw [free, Bool.true_and]
    cases s.noMessages port with
    | true =>
      refine .inr ⟨rfl, k, low, inside, fresh, ?_⟩
      simp [PortState.grantSignal]
    | false =>
      exact .inl ⟨rfl, (by decide : failed MSGPORTNOTEMPTY = true),
        grant_free isTask low inside clear⟩

variable (port newOwner slot) in
theorem setPortOwner_cases (kept : SignalsKept s own) :
    (s.acceptsOwner port newOwner slot = false ∧
        failed (s.setPortOwner port newOwner slot).2 = true ∧
        SameSignals s (s.setPortOwner port newOwner slot).1) ∨
      s.acceptsOwner port newOwner slot = true ∧ ∃ p task k, s.port? port = some p ∧
        s.task? newOwner = some task ∧ p.signalAllocated = true ∧ 8 ≤ k ∧ k < 31 ∧
        (newOwner, k) ∉ s.allocated ∧
        s.setPortOwner port newOwner slot =
          (s.givePort port newOwner p (BitVec.twoPow 32 k), 0) := by
  unfold PortState.acceptsOwner PortState.setPortOwner
  cases portS : s.port? port with
  | none => exact .inl ⟨rfl, (by decide : failed BADITEM = true), SameSignals.refl⟩
  | some p =>
    cases isTask : s.task? newOwner with
    | none => exact .inl ⟨rfl, (by decide : failed BADITEM = true), SameSignals.refl⟩
    | some task =>
      simp only
      cases s.mayOwn p with
      | false => exact .inl ⟨rfl, (by decide : failed BADPRIV = true), SameSignals.refl⟩
      | true =>
        cases slot with
        | false => exact .inl ⟨rfl, (by decide : failed RSRCTBLOVRFLW = true), SameSignals.refl⟩
        | true =>
          simp only [Bool.not_true, Bool.false_eq_true, if_false, Bool.true_and]
          cases auto : p.signalAllocated with
          | false =>
            have refused : s.internalSetMsgPortOwner port newOwner = (s, CANTSETOWNER) := by
              simp only [PortState.internalSetMsgPortOwner, portS, auto, Bool.not_false, if_true]
            have fails : failed CANTSETOWNER = true := by decide
            simp only [refused, fails, if_true]
            exact .inl ⟨rfl, trivial, SameSignals.refl⟩
          | true =>
            rw [Bool.true_and]
            obtain ⟨refused, fails, same⟩ | ⟨accepted, k, low, high, fresh, set⟩ :=
              internalSetMsgPortOwner_cases port newOwner kept portS auto isTask
            · simp only [fails, if_true]
              exact .inl ⟨refused, trivial, same⟩
            · have succeeds : failed 0 = false := by decide
              simp only [set, succeeds, Bool.false_eq_true, if_false]
              refine .inr ⟨accepted, p, task, k, rfl, rfl, auto, low, high, fresh, ?_⟩
              simp only [PortState.internalFreeSignal, PortState.port?_modifyTask,
                PortState.port?_setItem, if_true]
              rfl

section Give

variable (kept : SignalsKept s own) (portS : s.port? port = some p)
  (auto : p.signalAllocated = true) (isTask : s.task? newOwner = some task) (inside : k < 31)

include auto inside in
theorem held_givePort :
    (s.givePort port newOwner p (BitVec.twoPow 32 k)).held =
      Function.update s.held port (some (newOwner, k)) := by
  have bit : MsgPort.held { p with signal := BitVec.twoPow 32 k, owner := newOwner } =
      some (newOwner, k) := by
    rw [MsgPort.held, auto, if_pos rfl, ctz_twoPow (by omega)]
  rw [PortState.givePort, PortState.held_setItem, bit, PortState.held_free, PortState.held_setItem,
    PortState.held_grant, Function.update_idem]

include portS isTask inside in
theorem allocated_givePort :
    (s.givePort port newOwner p (BitVec.twoPow 32 k)).allocated =
      (((s.grantSignal newOwner (BitVec.twoPow 32 k)).setItem port
        (.port { p with signal := BitVec.twoPow 32 k })).internalFreeSignal p.signal
          s.currentTask).allocated ∧
      ((s.grantSignal newOwner (BitVec.twoPow 32 k)).setItem port
        (.port { p with signal := BitVec.twoPow 32 k })).allocated =
          insert (newOwner, k) s.allocated := by
  have noTask : s.task? port = none := PortState.task?_of_port? portS
  have other : port ≠ newOwner := by
    rintro rfl
    rw [noTask] at isTask
    cases isTask
  have noTaskG : (s.grantSignal newOwner (BitVec.twoPow 32 k)).task? port = none := by
    simp [PortState.grantSignal, other, noTask]
  constructor
  · rw [PortState.givePort, PortState.allocated_setItem]
    rw [← Option.not_isSome_iff_eq_none, PortState.internalFreeSignal,
      PortState.isSome_task?_modifyTask]
    simp
  · rw [PortState.allocated_setItem noTaskG, PortState.allocated_grant_bit isTask (by omega)]

include kept portS auto isTask inside in
theorem allocated_givePort_owner {k₀ : Nat} (holds : s.held port = some (p.owner, k₀))
    (byOwner : p.owner = s.currentTask) :
    (s.givePort port newOwner p (BitVec.twoPow 32 k)).allocated =
      insert (newOwner, k) s.allocated \ {(p.owner, k₀)} := by
  obtain ⟨k₁, low₁, high₁, signal, holds₁⟩ := kept.held_port portS auto
  obtain ⟨freed, granted⟩ := allocated_givePort portS isTask inside
  rw [holds, Option.some.injEq, Prod.mk.injEq] at holds₁
  obtain ⟨-, rfl⟩ := holds₁
  rw [freed, signal, ← byOwner, PortState.allocated_free low₁ high₁
    (by rw [granted]; exact .inr (kept.accounted.allocated_of_held holds)), granted]

include kept portS auto isTask inside in
theorem givePort_owner (low : 8 ≤ k) (fresh : (newOwner, k) ∉ s.allocated)
    (byOwner : p.owner = s.currentTask) :
    SignalsKept (s.givePort port newOwner p (BitVec.twoPow 32 k)) own := by
  obtain ⟨k₀, -, -, -, holds⟩ := kept.held_port portS auto
  refine kept.changed port ?_ (fun t isSome => ?_) (fun j elsewhere => ?_) fun q found _ => ?_
  · rw [allocated_givePort_owner kept portS auto isTask inside holds byOwner,
      held_givePort auto inside]
    exact kept.accounted.exchange holds fresh
  · simp only [PortState.givePort, PortState.internalFreeSignal, PortState.grantSignal,
      PortState.task?_setItem] at isSome
    by_cases samePort : t = port
    · simp [samePort] at isSome
    · rwa [if_neg samePort, PortState.isSome_task?_modifyTask, PortState.task?_setItem,
        if_neg samePort, PortState.isSome_task?_modifyTask] at isSome
  · simp [PortState.givePort, PortState.internalFreeSignal, PortState.grantSignal, elsewhere]
  · rw [PortState.givePort, PortState.port?_setItem, if_pos rfl, Option.some.injEq] at found
    exact ⟨k, low, inside, found ▸ rfl⟩

include kept portS auto isTask inside in
theorem givePort_astray (fresh : (newOwner, k) ∉ s.allocated)
    (byOther : p.owner ≠ s.currentTask) :
    ¬SignalsKept (s.givePort port newOwner p (BitVec.twoPow 32 k)) own := by
  intro wrong
  obtain ⟨k₀, low₀, high₀, signal, holds⟩ := kept.held_port portS auto
  obtain ⟨freed, granted⟩ := allocated_givePort portS isTask inside
  have left : (p.owner, k₀) ∈ (s.givePort port newOwner p (BitVec.twoPow 32 k)).allocated := by
    rw [freed, PortState.allocated_free_others byOther, granted]
    exact .inr (kept.accounted.allocated_of_held holds)
  have accounted := wrong.accounted
  rw [held_givePort auto inside] at accounted
  exact kept.accounted.astray holds fresh left accounted

end Give

end SignalsKept

end Portfolio.Kernel
