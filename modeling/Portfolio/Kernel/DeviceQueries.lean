import Mathlib.Algebra.Order.Group.Int
import Mathlib.Data.List.Lex
import Portfolio.Kernel.Ddf
import Portfolio.Kernel.DdfReading

set_option autoImplicit false

namespace Portfolio.Kernel

open Portfolio.Lib

inductive DDFOp
  | eq
  | gt
  | lt
  | ge
  | le
  | ne
  | defined
  | notdefined
  deriving DecidableEq

namespace DDFOp

def op : DDFOp → Nat
  | eq => opEq
  | gt => opGt
  | lt => opLt
  | ge => opNot + opLt
  | le => opNot + opGt
  | ne => opNot + opEq
  | defined => opDefined
  | notdefined => opNot + opDefined

def Relates {α : Type} [LinearOrder α] (operator : DDFOp) (provided queried : α) : Prop :=
  match operator with
  | eq => provided = queried
  | gt => queried < provided
  | lt => provided < queried
  | ge => queried ≤ provided
  | le => provided ≤ queried
  | ne => provided ≠ queried
  | defined => False
  | notdefined => False

end DDFOp

inductive DDFQueryValue
  | int (value : BitVec 32)
  | string (s : CString)

/-- A query, with a value of the type that `ddfq_Flags` says. All operators but two compare. -/
structure DDFQuery where
  name : CString
  operator : DDFOp
  value : Option DDFQueryValue
  compared : operator ≠ .defined → operator ≠ .notdefined → value.isSome = true

def intBytes (value : BitVec 32) : List Byte :=
  [(value.sshiftRight 24).setWidth 8, (value.sshiftRight 16).setWidth 8, (value.sshiftRight 8).setWidth 8,
    value.setWidth 8]

namespace DDFQueryValue

def bytes : DDFQueryValue → List Byte
  | int value => if value.slt 0 then 0x58 :: intBytes (-value) else 0x50 :: intBytes value
  | string s => 0x80 :: (s.chars ++ [0])

def token : DDFQueryValue → DDFToken
  | int value => .int value
  | string s => .string s.chars

def length : DDFQueryValue → Nat
  | int _ => 0
  | string s => s.chars.length

end DDFQueryValue

namespace DDFQuery

def length (q : DDFQuery) : Nat := 16 + q.name.chars.length + (q.value.map DDFQueryValue.length).getD 0

def need (q : DDFQuery) : List Byte :=
  0x80 :: (q.name.chars ++ [0]) ++ opByte q.operator.op ::
    ((q.value.map DDFQueryValue.bytes).getD [] ++ [keywordByte kEndNeed, keywordByte kEndNeedSection])

end DDFQuery

namespace DDFRegistry

variable (s : DDFRegistry)

def addIfSatisfied (l : List DDFRef) (ddf : DDFRef) : List DDFQuery → List DDFRef
  | [] => l ++ [ddf]
  | qp :: rest =>
    if (satisfiesNeed (initTokenSeq (s.node ddf).provides.bytes) (initTokenSeq qp.need)).1 = true then
      addIfSatisfied l ddf rest
    else l

def createDeviceList (query : List DDFQuery) : List DDFRef :=
  s.ddfs.foldl (fun devList ddf => s.addIfSatisfied devList ddf query) []

end DDFRegistry

def DDFValue.StandsIn (operator : DDFOp) : DDFValue → DDFQueryValue → Prop
  | .int v, .int w => operator.Relates v.value.toInt w.toInt
  | .string s, .string t => operator.Relates (s.chars.map BitVec.toNat) (t.chars.map BitVec.toNat)
  | _, _ => False

namespace DDFQuery

def Holds (q : DDFQuery) (p : ProvideSection) : Prop :=
  match q.operator with
  | .defined => ∃ a ∈ p, a.name.chars = q.name.chars
  | .notdefined => ¬ ∃ a ∈ p, a.name.chars = q.name.chars
  | operator => ∃ a ∈ p, a.name.chars = q.name.chars ∧ ∃ v ∈ a.values, ∃ w, q.value = some w ∧ v.StandsIn operator w

structure Encoded (q : DDFQuery) : Prop where
  fits : q.need.length ≤ q.length
  decodes : ∀ behind, ∃ rest, initTokenSeq (q.need ++ behind) =
    .string q.name.chars :: .op q.operator.op :: ((q.value.map DDFQueryValue.token).toList ++
      [.keyword kEndNeed, .keyword kEndNeedSection]) ++ rest

end DDFQuery

open Classical in
def DDFRegistry.Lists (s : DDFRegistry) (query : List DDFQuery) (devList : List DDFRef) : Prop :=
  devList = s.ddfs.filter fun d => decide (∀ q ∈ query, q.Holds (s.node d).provides.sect)

def Far (v w : BitVec 32) : Prop := ¬ (-2 ^ 31 ≤ v.toInt - w.toInt ∧ v.toInt - w.toInt < 2 ^ 31)

instance (v w : BitVec 32) : Decidable (Far v w) := inferInstanceAs (Decidable (¬ _))

def DDFValue.Shows (operator : DDFOp) : DDFValue → DDFQueryValue → Prop
  | .int v, .int w =>
    if Far v.value w then operator.Relates w.toInt v.value.toInt else operator.Relates v.value.toInt w.toInt
  | .string s, .string t => operator.Relates (s.chars.map BitVec.toNat) (t.chars.map BitVec.toNat)
  | _, _ => False

def DDFQuery.Shown (q : DDFQuery) (p : ProvideSection) : Prop :=
  match q.operator with
  | .defined => ∃ a ∈ p, a.name.chars = q.name.chars
  | .notdefined => ¬ ∃ a ∈ p, a.name.chars = q.name.chars
  | operator => ∃ values, p.values q.name = some values ∧
      ∃ v ∈ values, ∃ w, q.value = some w ∧ v.Shows operator w

theorem readInt_intBytes (value : BitVec 32) : readInt (BitVec.ofNat 32 0) (intBytes value) = value := by
  apply BitVec.eq_of_getLsbD_eq
  intro i inWord
  simp only [readInt, intBytes, List.foldl_cons, List.foldl_nil, BitVec.getLsbD_or, BitVec.getLsbD_shiftLeft,
    BitVec.getLsbD_setWidth, BitVec.getLsbD_sshiftRight, BitVec.getLsbD_ofNat, Nat.zero_testBit]
  by_cases first : i < 8
  · simp [first, inWord]
  · by_cases second : i < 16
    · simp [first, inWord, show i - 8 < 8 by omega, show i - 8 < 32 by omega, show 8 + (i - 8) = i by omega]
    · by_cases third : i < 24
      · simp [first, inWord, show ¬ i - 8 < 8 by omega, show i - 8 < 32 by omega, show i - 8 - 8 < 8 by omega,
          show i - 8 - 8 < 32 by omega, show 16 + (i - 8 - 8) = i by omega]
      · simp [first, inWord, show ¬ i - 8 < 8 by omega, show i - 8 < 32 by omega, show ¬ i - 8 - 8 < 8 by omega,
          show i - 8 - 8 < 32 by omega, show i - 8 - 8 - 8 < 8 by omega, show i - 8 - 8 - 8 < 32 by omega,
          show 24 + (i - 8 - 8 - 8) = i by omega]

def asDDFInt (value : BitVec 32) : DDFInt :=
  if value.slt 0 then ⟨true, ⟨0, Nat.zero_lt_succ 7⟩, intBytes (-value), Nat.le_refl 4⟩
  else ⟨false, ⟨0, Nat.zero_lt_succ 7⟩, intBytes value, Nat.le_refl 4⟩

theorem asDDFInt_value (value : BitVec 32) : (asDDFInt value).value = value := by
  unfold asDDFInt
  split
  · change -readInt (BitVec.ofNat 32 0) (intBytes (-value)) = value
    rw [readInt_intBytes, BitVec.neg_neg]
  · exact readInt_intBytes value

theorem asDDFInt_bytes (value : BitVec 32) : (asDDFInt value).bytes = (DDFQueryValue.int value).bytes := by
  by_cases negative : value.slt 0 = true
  · simp only [asDDFInt, DDFQueryValue.bytes, if_pos negative]
    rfl
  · simp only [asDDFInt, DDFQueryValue.bytes, if_neg negative]
    rfl

def DDFQueryValue.wanted : DDFQueryValue → DDFValue
  | int value => .int (asDDFInt value)
  | string s => .string s

theorem DDFQueryValue.wanted_token (w : DDFQueryValue) : w.wanted.token = w.token := by
  cases w with
  | int value => exact congrArg DDFToken.int (asDDFInt_value value)
  | string s => rfl

theorem DDFQueryValue.wanted_bytes (w : DDFQueryValue) : w.wanted.bytes = w.bytes := by
  cases w with
  | int value => exact asDDFInt_bytes value
  | string s => rfl

theorem DDFOp.op_lt (operator : DDFOp) : operator.op < 16 := by
  cases operator <;> decide

theorem DDFQuery.reads (q : DDFQuery) :
    Reads q.need (.string q.name.chars :: .op q.operator.op :: ((q.value.map DDFQueryValue.token).toList ++
      [.keyword kEndNeed, .keyword kEndNeedSection])) := by
  have value : Reads ((q.value.map DDFQueryValue.bytes).getD []) (q.value.map DDFQueryValue.token).toList := by
    cases q.value with
    | none => exact Reads.nil
    | some w =>
      have reads := w.wanted.reads
      rwa [w.wanted_token, w.wanted_bytes] at reads
  have ends : Reads [keywordByte kEndNeed, keywordByte kEndNeedSection]
      [.keyword kEndNeed, .keyword kEndNeedSection] :=
    (keyword_reads (by decide)).append (keyword_reads (by decide))
  exact q.name.reads.append ((op_reads q.operator.op_lt).append (value.append ends))

theorem DDFQuery.encoded (q : DDFQuery) : q.Encoded := by
  refine ⟨?_, fun behind => q.reads.initTokenSeq behind⟩
  have value : ((q.value.map DDFQueryValue.bytes).getD []).length ≤
      5 + (q.value.map DDFQueryValue.length).getD 0 := by
    cases q.value with
    | none => simp
    | some w =>
      cases w with
      | int value =>
        simp only [Option.map_some, Option.getD_some, DDFQueryValue.bytes, DDFQueryValue.length]
        split <;> simp [intBytes]
      | string s =>
        simp only [Option.map_some, Option.getD_some, DDFQueryValue.bytes, DDFQueryValue.length,
          List.length_cons, List.length_append, List.length_nil]
        omega
  simp only [need, length, List.length_append, List.length_cons, List.length_nil] at value ⊢
  omega

def DDFOp.Compares (operator : DDFOp) : Prop := operator ≠ .defined ∧ operator ≠ .notdefined

theorem DDFOp.Compares.op {operator : DDFOp} (compares : operator.Compares) :
    plainOp operator.op ≠ opDefined ∧ operator.op ≠ opNot + opDefined := by
  obtain ⟨defined, notdefined⟩ := compares
  cases operator <;> first | contradiction | decide

theorem opHolds_relates {operator : DDFOp} (compares : operator.Compares) (cmp : Int) :
    opHolds operator.op cmp = true ↔ operator.Relates cmp 0 := by
  obtain ⟨defined, notdefined⟩ := compares
  cases operator <;> first | contradiction | simp [opHolds, DDFOp.op, DDFOp.Relates, plainOp, negated, opEq, opGt,
    opLt, opNot]

theorem relates_sub (operator : DDFOp) (v w : BitVec 32) :
    operator.Relates (v - w).toInt 0 ↔
      if Far v w then operator.Relates w.toInt v.toInt else operator.Relates v.toInt w.toInt := by
  have low := BitVec.le_toInt v
  have high := BitVec.toInt_lt (x := v)
  have lowW := BitVec.le_toInt w
  have highW := BitVec.toInt_lt (x := w)
  by_cases far : Far v w
  · rw [if_pos far]
    have turned : (v - w).toInt = v.toInt - w.toInt - 2 ^ 32 ∧ w.toInt < v.toInt ∨
        (v - w).toInt = v.toInt - w.toInt + 2 ^ 32 ∧ v.toInt < w.toInt := by
      unfold Far at far
      rw [BitVec.toInt_sub, Int.bmod_def]
      omega
    cases operator <;> simp only [DDFOp.Relates] <;> omega
  · rw [if_neg far]
    have difference : (v - w).toInt = v.toInt - w.toInt := by
      unfold Far at far
      rw [BitVec.toInt_sub]
      exact Int.bmod_eq_of_le (by omega) (by omega)
    cases operator <;> simp only [DDFOp.Relates] <;> omega

theorem relates_strcmp (operator : DDFOp) (s t : CString) :
    operator.Relates (strcmp s.chars t.chars) 0 ↔
      operator.Relates (s.chars.map BitVec.toNat) (t.chars.map BitVec.toNat) := by
  have sign := strcmp_sign (fun _ => s.ne_zero) (fun _ => t.ne_zero)
  have same : strcmp s.chars t.chars = 0 ↔ _ := sign .eq
  have above : 0 < strcmp s.chars t.chars ↔ _ := sign .gt
  have below : strcmp s.chars t.chars < 0 ↔ _ := sign .lt
  cases operator with
  | eq => exact same
  | gt => exact above
  | lt => exact below
  | ge => exact not_lt.symm.trans ((not_congr below).trans not_lt)
  | le => exact not_lt.symm.trans ((not_congr above).trans not_lt)
  | ne => exact not_congr same
  | defined => exact Iff.rfl
  | notdefined => exact Iff.rfl

theorem compareTokens_shows {operator : DDFOp} (compares : operator.Compares) (v : DDFValue) (w : DDFQueryValue) :
    compareTokens operator.op v.token w.token = some true ↔ v.Shows operator w := by
  cases v with
  | int i =>
    cases w with
    | int value =>
      rw [DDFValue.token, DDFQueryValue.token, compareTokens, Option.some_inj, opHolds_relates compares, relates_sub]
      rfl
    | string t => exact iff_of_false (by simp [DDFValue.token, DDFQueryValue.token, compareTokens]) id
  | string s =>
    cases w with
    | int value => exact iff_of_false (by simp [DDFValue.token, CString.token, DDFQueryValue.token, compareTokens]) id
    | string t =>
      rw [DDFValue.token, CString.token, DDFQueryValue.token, compareTokens, Option.some_inj,
        opHolds_relates compares, relates_strcmp]
      rfl

section

variable {p : ProvideSection} {provides : DDFTokenSeq}

theorem ProvideSection.values_ne_none (p : ProvideSection) (name : CString) :
    p.values name ≠ none ↔ ∃ a ∈ p, a.name.chars = name.chars := by
  rw [ProvideSection.values, ne_eq, Option.map_eq_none_iff, List.find?_eq_none]
  simp

theorem satisfiesNeed_compares (reads : ∃ rest, provides = ProvideSection.tokens p ++ rest) (name : CString)
    {operator : DDFOp} (compares : operator.Compares) (w : DDFQueryValue) (rest : DDFTokenSeq) :
    (satisfiesNeed provides (.string name.chars :: .op operator.op :: w.token :: .keyword kEndNeed :: rest)).1 = true ↔
      ∃ values, p.values name = some values ∧ ∃ v ∈ values, v.Shows operator w := by
  have value := satisfiesNeedValue_compares reads name compares.op w.token
  simp only [compareTokens_shows compares] at value
  rw [← value, satisfiesNeed, if_neg compares.op.1]
  have loop : satisfiesValues provides name.chars operator.op (w.token :: .keyword kEndNeed :: rest) =
      if satisfiesNeedValue provides name.chars operator.op (some w.token) = true then (true, rest)
      else (false, rest) := by
    cases w <;> rfl
  rw [loop]
  split <;> simp_all

theorem satisfiesNeed_shown (reads : ∃ rest, provides = ProvideSection.tokens p ++ rest) (q : DDFQuery)
    (behind : List Byte) :
    (satisfiesNeed provides (initTokenSeq (q.need ++ behind))).1 = true ↔ q.Shown p := by
  obtain ⟨rest, tokens⟩ := q.encoded.decodes behind
  rw [tokens]
  by_cases compares : q.operator.Compares
  · obtain ⟨w, value⟩ := Option.isSome_iff_exists.mp (q.compared compares.1 compares.2)
    have shown : q.Shown p ↔ ∃ values, p.values q.name = some values ∧ ∃ v ∈ values, v.Shows q.operator w := by
      obtain ⟨defined, notdefined⟩ := compares
      unfold DDFQuery.Shown
      rw [value]
      split <;> simp_all
    rw [value, shown, ← satisfiesNeed_compares reads q.name compares w (.keyword kEndNeedSection :: rest)]
    rfl
  · have defined (no : Bool) (is : q.operator.op = (DDFTest.defined no).op) (ahead : DDFTokenSeq) :
        (satisfiesNeed provides (.string q.name.chars :: .op q.operator.op :: ahead)).1 = true ↔
          Unless no (p.values q.name ≠ none) := by
      have plain : plainOp (DDFTest.defined no).op = opDefined := by cases no <;> rfl
      rw [is, satisfiesNeed, if_pos plain]
      exact satisfiesNeedValue_defined reads q.name no
    rw [List.cons_append, List.cons_append]
    unfold DDFQuery.Shown
    cases operator : q.operator with
    | defined =>
      have shown := defined false (by rw [operator]; rfl)
      rw [operator] at shown
      exact (shown _).trans (p.values_ne_none q.name)
    | notdefined =>
      have shown := defined true (by rw [operator]; rfl)
      rw [operator] at shown
      exact (shown _).trans (not_congr (p.values_ne_none q.name))
    | _ => exact absurd ⟨by simp [operator], by simp [operator]⟩ compares

end

namespace DDFRegistry

variable (s : DDFRegistry)

theorem satisfiesNeed_provides (ddf : DDFRef) (q : DDFQuery) :
    (satisfiesNeed (initTokenSeq (s.node ddf).provides.bytes) (initTokenSeq q.need)).1 = true ↔
      q.Shown (s.node ddf).provides.sect := by
  have reads := (ProvideSection.reads (s.node ddf).provides.sect).initTokenSeq (s.node ddf).provides.behind
  have shown := satisfiesNeed_shown reads q []
  rw [List.append_nil] at shown
  exact shown

theorem addIfSatisfied_shown {ddf : DDFRef} {query : List DDFQuery} (l : List DDFRef)
    (shown : ∀ q ∈ query, q.Shown (s.node ddf).provides.sect) : s.addIfSatisfied l ddf query = l ++ [ddf] := by
  induction query with
  | nil => rfl
  | cons q query ih =>
    rw [List.forall_mem_cons] at shown
    rw [addIfSatisfied, if_pos ((s.satisfiesNeed_provides ddf q).mpr shown.1), ih shown.2]

theorem addIfSatisfied_other {ddf : DDFRef} {query : List DDFQuery} (l : List DDFRef)
    (other : ¬ ∀ q ∈ query, q.Shown (s.node ddf).provides.sect) : s.addIfSatisfied l ddf query = l := by
  induction query with
  | nil => exact absurd (fun q member => by cases member) other
  | cons q query ih =>
    rw [addIfSatisfied]
    by_cases shown : q.Shown (s.node ddf).provides.sect
    · rw [if_pos ((s.satisfiesNeed_provides ddf q).mpr shown)]
      exact ih fun rest => other (List.forall_mem_cons.mpr ⟨shown, rest⟩)
    · rw [if_neg (mt (s.satisfiesNeed_provides ddf q).mp shown)]

open Classical in
theorem createDeviceList_eq (query : List DDFQuery) :
    s.createDeviceList query =
      s.ddfs.filter fun d => decide (∀ q ∈ query, q.Shown (s.node d).provides.sect) := by
  have loop (ddfs l : List DDFRef) : ddfs.foldl (fun devList ddf => s.addIfSatisfied devList ddf query) l =
      l ++ ddfs.filter fun d => decide (∀ q ∈ query, q.Shown (s.node d).provides.sect) := by
    induction ddfs generalizing l with
    | nil => simp
    | cons d ddfs ih =>
      rw [List.foldl_cons, ih, List.filter_cons]
      by_cases shown : ∀ q ∈ query, q.Shown (s.node d).provides.sect
      · rw [s.addIfSatisfied_shown l shown, if_pos (decide_eq_true shown), List.append_assoc]
        rfl
      · rw [s.addIfSatisfied_other l shown, if_neg (by simpa using shown)]
  exact loop s.ddfs []

end DDFRegistry

def nameX : CString := ⟨[120], rfl⟩

def largeRegistry : DDFRegistry where
  ddfs := [1]
  node _ :=
    { name := [97], children := [], parents := [], needs := ⟨⟨[], []⟩, []⟩
      provides := ⟨[⟨nameX, [.int ⟨false, ⟨0, Nat.zero_lt_succ 7⟩, [0x7F, 0xFF, 0xFF, 0xFF], Nat.le_refl 4⟩]⟩], []⟩
      version := 1, revision := 0, flags := 0, module := [97], driver := [97] }
  drivers := []

def aboveMinusOne : DDFQuery := ⟨nameX, .gt, some (.int (-1)), fun _ _ => rfl⟩

end Portfolio.Kernel
