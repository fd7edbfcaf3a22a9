import Portfolio.Kernel.Lumberjack

set_option autoImplicit false

namespace Portfolio.Kernel.Log

open Portfolio.Lib

theorem length_placeStrings (ptr : Nat) (fields : List Field) :
    (placeStrings ptr fields).1.length = fields.length := by
  induction fields generalizing ptr with
  | nil => rfl
  | cons field rest ih =>
    cases field with
    | word value => simp [placeStrings, ih]
    | string text => cases text <;> simp [placeStrings, ih]

theorem placeStrings_space (ptr ptr' : Nat) (fields : List Field) :
    (placeStrings ptr fields).2.length = (placeStrings ptr' fields).2.length := by
  induction fields generalizing ptr ptr' with
  | nil => rfl
  | cons field rest ih =>
    cases field with
    | word value => exact ih ptr ptr'
    | string text =>
      cases text with
      | none => exact ih ptr ptr'
      | some text =>
        simp only [placeStrings, List.length_append, List.length_cons]
        rw [ih (ptr + text.length + 1) (ptr' + text.length + 1)]

theorem length_headerBytes (h : Header) : h.bytes.length = sizeofHeader := by
  simp [Header.bytes, sizeofHeader]

theorem length_flatMap_words (words : List (BitVec 32)) :
    (words.flatMap fun w => toBytes 4 w.toNat).length = 4 * words.length := by
  induction words with
  | nil => rfl
  | cons w rest ih =>
    rw [List.flatMap_cons, List.length_append, length_toBytes, ih, List.length_cons]
    omega

theorem Data.length_bytes (d : Data) (cur : Task) (time : BitVec 64) (start : Nat) :
    (d.bytes cur time start).length = d.size + d.stringSpace cur := by
  have words : (d.placed cur start).1.length = d.fields.length + 1 := length_placeStrings _ _
  have space : (d.placed cur start).2.length = d.stringSpace cur := placeStrings_space _ _ _
  simp only [Data.bytes, List.length_append, length_headerBytes, length_flatMap_words,
    List.length_tail, words, space, Data.size]
  omega

theorem Data.rounded_ge (d : Data) (cur : Task) (time : BitVec 64) (start : Nat) :
    sizeofHeader ≤ (d.bytes cur time start).length ∧
      (d.bytes cur time start).length ≤ d.rounded cur ∧ 4 ∣ d.rounded cur := by
  rw [Data.length_bytes, Data.rounded, Data.size]
  refine ⟨by omega, by omega, Dvd.intro_left _ rfl⟩

structure IsEvent (r : List Byte) : Prop where
  header : sizeofHeader ≤ r.length
  type : ofBytes (r.take 2) ≠ typeBufferEnd.toNat
  next : ofBytes ((r.drop 2).take 2) = r.length

def Chain (data : ByteMem) : Nat → List (List Byte) → Nat → Prop
  | start, [], stop => start = stop
  | start, r :: rest, stop =>
    (data.load start r.length = r ∧ IsEvent r) ∧ Chain data (start + r.length) rest stop

variable {data : ByteMem} {start stop : Nat} {events : List (List Byte)}

theorem Chain.length_le (chain : Chain data start events stop) : start + events.length ≤ stop := by
  induction events generalizing start with
  | nil => exact Nat.le_of_eq chain
  | cons r rest ih =>
    have later := ih chain.2
    have some := chain.1.2.header
    unfold sizeofHeader at some
    rw [List.length_cons]
    omega

theorem Chain.append (chain : Chain data start events stop) {r : List Byte}
    (here : data.load stop r.length = r) (event : IsEvent r) :
    Chain data start (events ++ [r]) (stop + r.length) := by
  induction events generalizing start with
  | nil =>
    have same : start = stop := chain
    subst same
    exact ⟨⟨here, event⟩, rfl⟩
  | cons first rest ih => exact ⟨chain.1, ih chain.2⟩

theorem Chain.store (chain : Chain data start events stop) (bytes : List Byte) :
    Chain (data.store stop bytes) start events stop := by
  induction events generalizing start with
  | nil => exact chain
  | cons r rest ih =>
    have later := chain.2.length_le
    refine ⟨⟨?_, chain.1.2⟩, ih chain.2⟩
    rw [data.load_store_before bytes (by omega)]
    exact chain.1.1

theorem load_type (data : ByteMem) (start : Nat) {r : List Byte} (here : data.load start r.length = r)
    (header : sizeofHeader ≤ r.length) :
    data.load start 2 = r.take 2 ∧ data.load (start + 2) 2 = (r.drop 2).take 2 := by
  unfold sizeofHeader at header
  constructor
  · have first : data.load start 2 = (data.load start r.length).take 2 := data.load_take _ (by omega)
    rw [first, here]
  · have behind : data.load (start + 2) (r.length - 2) = (data.load start r.length).drop 2 :=
      data.load_drop
    have second : data.load (start + 2) 2 = (data.load (start + 2) (r.length - 2)).take 2 :=
      data.load_take _ (by omega)
    rw [second, behind, here]

theorem Chain.parse (chain : Chain data start events stop)
    (ends : ofBytes (data.load stop 2) = typeBufferEnd.toNat)
    (fits : stop + sizeofHeader ≤ bufferSize) {fuel : Nat} (enough : events.length < fuel) :
    parseEvents data fuel start = some events := by
  induction events generalizing start fuel with
  | nil =>
    have same : start = stop := chain
    subst same
    cases fuel with
    | zero => exact absurd enough (Nat.not_lt_zero _)
    | succ fuel =>
      rw [parseEvents, if_neg (Nat.not_lt.mpr fits), if_pos ends]
  | cons r rest ih =>
    obtain ⟨⟨here, event⟩, later⟩ := chain
    obtain ⟨type, next⟩ := load_type data start here event.header
    have inside := later.length_le
    have header := event.header
    cases fuel with
    | zero => exact absurd enough (Nat.not_lt_zero _)
    | succ fuel =>
      rw [List.length_cons] at enough
      rw [parseEvents, if_neg (by omega), type, if_neg event.type]
      dsimp only
      rw [next, event.next, ih later (by omega), here, Option.map_some]

def Data.record (d : Data) (cur : Task) (time : BitVec 64) (data : ByteMem) (start : Nat) : List Byte :=
  (data.store start (d.bytes cur time start)).load start (d.rounded cur)

theorem Data.record_prefix (d : Data) (cur : Task) (time : BitVec 64) (data : ByteMem) (start : Nat) :
    d.bytes cur time start <+: d.record cur time data start := by
  obtain ⟨-, le, -⟩ := d.rounded_ge cur time start
  have first := (data.store start (d.bytes cur time start)).load_take start le
  rw [data.load_store_self] at first
  rw [first]
  exact List.take_prefix _ _

theorem take_two_header (h : Header) (rest : List Byte) :
    (h.bytes ++ rest).take 2 = toBytes 2 h.type.toNat ∧
      ((h.bytes ++ rest).drop 2).take 2 = toBytes 2 h.nextEvent.toNat := by
  constructor <;> simp [Header.bytes, toBytes]

theorem Data.record_isEvent (d : Data) (cur : Task) (time : BitVec 64) (data : ByteMem) (start : Nat)
    (small : d.rounded cur < 2 ^ 16) : IsEvent (d.record cur time data start) := by
  obtain ⟨header, le, -⟩ := d.rounded_ge cur time start
  have length : (d.record cur time data start).length = d.rounded cur := ByteMem.length_load _ _ _
  obtain ⟨padding, whole⟩ := d.record_prefix cur time data start
  obtain ⟨type, next⟩ := take_two_header (d.header cur time start)
    ((d.placed cur start).1.tail.flatMap (fun w => toBytes 4 w.toNat) ++ (d.placed cur start).2 ++
      padding)
  have same : (d.header cur time start).bytes ++
      ((d.placed cur start).1.tail.flatMap (fun w => toBytes 4 w.toNat) ++ (d.placed cur start).2 ++
        padding) = d.record cur time data start := by
    rw [← whole, Data.bytes]
    simp only [List.append_assoc]
  rw [same] at type next
  refine ⟨by omega, ?_, ?_⟩
  · rw [type, ofBytes_toBytes_of_lt d.type.isLt]
    have typed := d.typed
    show d.type.toNat ≠ 0
    omega
  · rw [next, length, ofBytes_toBytes_of_lt (d.header cur time start).nextEvent.isLt]
    show (BitVec.ofNat 16 (d.rounded cur)).toNat = _
    rw [BitVec.toNat_ofNat, Nat.mod_eq_of_lt small]

end Portfolio.Kernel.Log
