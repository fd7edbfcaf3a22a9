import Portfolio.Kernel.DdfSections

set_option autoImplicit false

namespace Portfolio.Kernel

open Portfolio.Lib

structure Reads (bytes : List Byte) (tokens : DDFTokenSeq) : Prop where
  ahead : ∀ count rest, tokensUpTo (tokens.length + count) (bytes ++ rest) = tokens ++ tokensUpTo count rest
  length : tokens.length ≤ bytes.length

theorem Reads.nil : Reads [] [] := ⟨fun count rest => by simp, le_rfl⟩

theorem Reads.append {bytes bytes' : List Byte} {tokens tokens' : DDFTokenSeq}
    (first : Reads bytes tokens) (second : Reads bytes' tokens') :
    Reads (bytes ++ bytes') (tokens ++ tokens') := by
  constructor
  · intro count rest
    rw [List.length_append, Nat.add_assoc, List.append_assoc, first.ahead, second.ahead,
      List.append_assoc]
  · have first := first.length
    have second := second.length
    simp only [List.length_append]
    omega

theorem Reads.single {b : Byte} {bytes : List Byte} {token : DDFToken}
    (next : ∀ rest, nextDDFToken (b :: bytes ++ rest) = some (token, rest)) :
    Reads (b :: bytes) [token] := by
  constructor
  · intro count rest
    rw [List.length_singleton, Nat.add_comm, tokensUpTo, next]
    rfl
  · simp

theorem Reads.flatMap {α : Type} {bytes : α → List Byte} {tokens : α → DDFTokenSeq}
    (each : ∀ a, Reads (bytes a) (tokens a)) (as : List α) :
    Reads (as.flatMap bytes) (as.flatMap tokens) := by
  induction as with
  | nil => exact Reads.nil
  | cons a rest ih =>
    rw [List.flatMap_cons, List.flatMap_cons]
    exact (each a).append ih

theorem Reads.initTokenSeq {bytes : List Byte} {tokens : DDFTokenSeq} (reads : Reads bytes tokens)
    (behind : List Byte) : ∃ rest, initTokenSeq (bytes ++ behind) = tokens ++ rest := by
  have short := reads.length
  have split : (bytes ++ behind).length = tokens.length + (bytes.length + behind.length - tokens.length) := by
    rw [List.length_append]
    omega
  rw [Kernel.initTokenSeq, split, reads.ahead]
  exact ⟨_, rfl⟩

theorem CString.reads (s : CString) : Reads s.bytes [s.token] := by
  apply Reads.single
  intro rest
  have noNul : ∀ c ∈ s.chars, (c != 0) = true := by
    intro c member
    have absent := s.noNul
    rw [List.contains_eq_mem, decide_eq_false_iff_not] at absent
    rw [bne_iff_ne]
    rintro rfl
    exact absent member
  have chars : (s.chars ++ [0] ++ rest).takeWhile (· != 0) = s.chars := by
    rw [List.append_assoc, List.takeWhile_append_of_pos noNul]
    simp
  have behind : (s.chars ++ [0] ++ rest).dropWhile (· != 0) = 0 :: rest := by
    rw [List.append_assoc, List.dropWhile_append_of_pos noNul]
    simp
  simp only [nextDDFToken, List.cons_append, chars, behind]
  rfl

theorem keyword_reads {k : Nat} (small : k < 16) : Reads [keywordByte k] [.keyword k] := by
  apply Reads.single
  intro rest
  have byte : (keywordByte k).toNat = 9 * 16 + k := by
    rw [keywordByte, BitVec.toNat_ofNat, Nat.mod_eq_of_lt (by omega)]
  have type : (9 * 16 + k) / 16 = 9 := by omega
  have low : (9 * 16 + k) % 16 = k := by omega
  simp [nextDDFToken, byte, type, low]

theorem op_reads {op : Nat} (small : op < 16) : Reads [opByte op] [.op op] := by
  apply Reads.single
  intro rest
  have byte : (opByte op).toNat = 10 * 16 + op := by
    rw [opByte, BitVec.toNat_ofNat, Nat.mod_eq_of_lt (by omega)]
  have type : (10 * 16 + op) / 16 = 10 := by omega
  have low : (10 * 16 + op) % 16 = op := by omega
  simp [nextDDFToken, byte, type, low]

theorem DDFInt.reads (i : DDFInt) : Reads i.bytes [.int i.value] := by
  apply Reads.single
  intro rest
  have short := i.short
  have high := i.high.isLt
  -- the sign bit and the high digits
  obtain ⟨low, lowEq⟩ : ∃ low, low = (if i.neg = true then 8 else 0) + i.high.val := ⟨_, rfl⟩
  have lowLt : low < 16 := by
    rw [lowEq]
    split <;> omega
  have sign : (8 ≤ low) = (i.neg = true) := by
    rw [lowEq]
    split <;> simp_all
  have digit : low % 8 = i.high.val := by
    rw [lowEq]
    split <;> omega
  rw [← lowEq]
  have byte : (BitVec.ofNat 8 ((i.digits.length + 1) * 16 + low)).toNat = (i.digits.length + 1) * 16 + low := by
    rw [BitVec.toNat_ofNat, Nat.mod_eq_of_lt (by omega)]
  have type : ((i.digits.length + 1) * 16 + low) / 16 = i.digits.length + 1 := by omega
  have nibble : ((i.digits.length + 1) * 16 + low) % 16 = low := by omega
  simp only [nextDDFToken, List.cons_append, byte, type, nibble, digit, sign]
  rw [if_pos ⟨by omega, by omega⟩, if_pos (by simp)]
  simp [DDFInt.value]

theorem DDFValue.reads (v : DDFValue) : Reads v.bytes [v.token] := by
  cases v with
  | int i => exact i.reads
  | string s => exact s.reads

theorem values_read (values : List DDFValue) :
    Reads (values.flatMap DDFValue.bytes) (values.map DDFValue.token) := by
  rw [List.map_eq_flatMap]
  exact Reads.flatMap DDFValue.reads values

theorem DDFTest.op_lt (t : DDFTest) : t.op < 16 := by
  cases t with
  | defined no => cases no <;> simp [op, opNot, opDefined]
  | compare rel no values => cases rel <;> cases no <;> simp [op, DDFCompare.op, opNot, opEq, opGt, opLt]

theorem DDFNeed.reads (n : DDFNeed) : Reads n.bytes n.tokens :=
  n.name.reads.append ((op_reads n.test.op_lt).append
    ((values_read n.test.values).append (keyword_reads (by decide))))

theorem DDFProvide.reads (p : DDFProvide) : Reads p.bytes p.tokens :=
  p.name.reads.append ((values_read p.values).append (keyword_reads (by decide)))

theorem ProvideSection.reads (s : ProvideSection) : Reads (ProvideSection.bytes s) (ProvideSection.tokens s) :=
  (Reads.flatMap DDFProvide.reads s).append (keyword_reads (by decide))

theorem NeedSection.others_read (others : List (List DDFNeed)) :
    Reads (othersBytes others) (othersTokens others) := by
  induction others with
  | nil => exact keyword_reads (by decide)
  | cons clause rest ih =>
    exact (keyword_reads (k := kOr) (by decide)).append ((Reads.flatMap DDFNeed.reads clause).append ih)

theorem NeedSection.reads (s : NeedSection) : Reads s.bytes s.tokens :=
  (Reads.flatMap DDFNeed.reads s.first).append (others_read s.others)

theorem CString.ne_zero (s : CString) {c : Byte} (member : c ∈ s.chars) : c ≠ 0 := by
  have absent := s.noNul
  rw [List.contains_eq_mem, decide_eq_false_iff_not] at absent
  rintro rfl
  exact absent member

theorem toNat_pos {c : Byte} (ne : c ≠ 0) : 0 < c.toNat := by
  rcases Nat.eq_zero_or_pos c.toNat with zero | pos
  · exact absurd (BitVec.eq_of_toNat_eq zero) ne
  · exact pos

def DDFCompare.Sign (rel : DDFCompare) (cmp : Int) : Prop :=
  match rel with
  | .eq => cmp = 0
  | .gt => 0 < cmp
  | .lt => cmp < 0

theorem strcmp_sign {a b : CharPtr} (noNulA : ∀ c ∈ a, c ≠ 0) (noNulB : ∀ c ∈ b, c ≠ 0)
    (rel : DDFCompare) :
    rel.Sign (strcmp a b) ↔ rel.Holds (a.map BitVec.toNat) (b.map BitVec.toNat) := by
  induction a generalizing b with
  | nil =>
    cases b with
    | nil => cases rel <;> simp [strcmp, DDFCompare.Sign, DDFCompare.Holds]
    | cons c b =>
      have pos := toNat_pos (noNulB c List.mem_cons_self)
      cases rel <;> simp [strcmp, DDFCompare.Sign, DDFCompare.Holds] <;> omega
  | cons c a ih =>
    cases b with
    | nil =>
      have pos := toNat_pos (noNulA c List.mem_cons_self)
      cases rel <;> simp [strcmp, DDFCompare.Sign, DDFCompare.Holds] <;> omega
    | cons d b =>
      by_cases same : c = d
      · subst same
        have later := ih (fun x member => noNulA x (List.mem_cons_of_mem _ member))
          (fun x member => noNulB x (List.mem_cons_of_mem _ member))
        rw [strcmp, if_pos rfl, later]
        cases rel <;> simp [DDFCompare.Holds]
      · have differ : c.toNat ≠ d.toNat := fun eq => same (BitVec.eq_of_toNat_eq eq)
        rw [strcmp, if_neg same]
        cases rel <;> simp [DDFCompare.Sign, DDFCompare.Holds, List.cons_lt_cons_iff, differ, Ne.symm differ] <;>
          omega

theorem sub_sign {v w : BitVec 32} (rel : DDFCompare)
    (noOverflow : rel = .eq ∨ -2 ^ 31 ≤ v.toInt - w.toInt ∧ v.toInt - w.toInt < 2 ^ 31) :
    rel.Sign (v - w).toInt ↔ rel.Holds v.toInt w.toInt := by
  rcases noOverflow with rfl | ⟨low, high⟩
  · change (v - w).toInt = 0 ↔ v.toInt = w.toInt
    rw [BitVec.toInt_inj]
    constructor
    · intro zero
      have none := BitVec.eq_of_toInt_eq (zero.trans BitVec.toInt_zero.symm)
      bv_omega
    · rintro rfl
      simp
  · have difference : (v - w).toInt = v.toInt - w.toInt := by
      rw [BitVec.toInt_sub]
      exact Int.bmod_eq_of_le (by omega) (by omega)
    rw [difference]
    cases rel <;> simp only [DDFCompare.Sign, DDFCompare.Holds] <;> omega

theorem opHolds_compare (rel : DDFCompare) (no : Bool) (values : List DDFValue) (cmp : Int) :
    opHolds (DDFTest.compare rel no values).op cmp = true ↔ Unless no (rel.Sign cmp) := by
  cases rel <;> cases no <;>
    simp [opHolds, DDFTest.op, DDFCompare.op, plainOp, negated, opEq, opGt, opLt, opNot, Unless,
      DDFCompare.Sign]

theorem unless_congr {no : Bool} {p q : Prop} (same : p ↔ q) : Unless no p ↔ Unless no q := by
  cases no <;> simp [Unless, same]

theorem compareTokens_meets (rel : DDFCompare) (no : Bool) (values : List DDFValue) (v w : DDFValue)
    (noOverflow : rel = .eq ∨ ∀ i j, v = .int i → w = .int j →
      -2 ^ 31 ≤ i.value.toInt - j.value.toInt ∧ i.value.toInt - j.value.toInt < 2 ^ 31) :
    compareTokens (DDFTest.compare rel no values).op v.token w.token = some true ↔ v.Meets rel no w := by
  cases v with
  | int i =>
    cases w with
    | int j =>
      simp only [DDFValue.token, compareTokens, Option.some.injEq, opHolds_compare, DDFValue.Meets]
      exact unless_congr (sub_sign rel (noOverflow.imp_right fun bound => bound i j rfl rfl))
    | string t => simp [DDFValue.token, CString.token, compareTokens, DDFValue.Meets]
  | string s =>
    cases w with
    | int j => simp [DDFValue.token, CString.token, compareTokens, DDFValue.Meets]
    | string t =>
      simp only [DDFValue.token, CString.token, compareTokens, Option.some.injEq, opHolds_compare,
        DDFValue.Meets]
      exact unless_congr (strcmp_sign (fun _ => s.ne_zero) (fun _ => t.ne_zero) rel)

theorem length_le_flatMap {α : Type} {tokens : α → DDFTokenSeq} (some : ∀ a, 1 ≤ (tokens a).length)
    (as : List α) : as.length ≤ (as.flatMap tokens).length := by
  induction as with
  | nil => simp
  | cons a rest ih =>
    have first := some a
    simp only [List.flatMap_cons, List.length_append, List.length_cons]
    omega

theorem skipProvide_values (values : List DDFValue) (rest : DDFTokenSeq) :
    skipProvide (values.map DDFValue.token ++ .keyword kEndProvide :: rest) = some rest := by
  induction values with
  | nil => rfl
  | cons v values ih => cases v <;> simpa [DDFValue.token, CString.token, skipProvide] using ih

theorem ProvideSection.values_cons (p : DDFProvide) (s : ProvideSection) (name : CString) :
    ProvideSection.values (p :: s) name =
      if p.name.chars = name.chars then some p.values else ProvideSection.values s name := by
  by_cases same : p.name.chars = name.chars
  · simp [ProvideSection.values, same]
  · simp [ProvideSection.values, same]

theorem findProvide_values (s : ProvideSection) (name : CString) (rest : DDFTokenSeq) {rounds : Nat}
    (enough : s.length < rounds) :
    match ProvideSection.values s name with
    | none => findProvideUpTo name.chars rounds (ProvideSection.tokens s ++ rest) = .missing
    | some values =>
      ∃ behind, findProvideUpTo name.chars rounds (ProvideSection.tokens s ++ rest) =
        .found (values.map DDFValue.token ++ .keyword kEndProvide :: behind) := by
  induction s generalizing rounds with
  | nil =>
    cases rounds with
    | zero => exact absurd enough (Nat.not_lt_zero _)
    | succ rounds => simp [ProvideSection.values, ProvideSection.tokens, findProvideUpTo]
  | cons p s ih =>
    cases rounds with
    | zero => exact absurd enough (Nat.not_lt_zero _)
    | succ rounds =>
      have tokens : ProvideSection.tokens (p :: s) ++ rest =
          .string p.name.chars :: (p.values.map DDFValue.token ++
            .keyword kEndProvide :: (ProvideSection.tokens s ++ rest)) := by
        simp [ProvideSection.tokens, DDFProvide.tokens, CString.token]
      rw [ProvideSection.values_cons, tokens, findProvideUpTo]
      by_cases same : p.name.chars = name.chars
      · rw [if_pos same]
        simp only [if_pos same]
        exact ⟨_, rfl⟩
      · rw [if_neg same]
        simp only [if_neg same, skipProvide_values]
        exact ih (by simpa using enough)

theorem provides_rounds (p : ProvideSection) (rest : DDFTokenSeq) :
    p.length < (ProvideSection.tokens p ++ rest).length + 1 := by
  have each : p.length ≤ (p.flatMap DDFProvide.tokens).length :=
    length_le_flatMap (fun q => by simp [DDFProvide.tokens]) p
  simp only [ProvideSection.tokens, List.length_append]
  omega

theorem matchValues_iff (op : Nat) (want : DDFToken) (values : List DDFValue) (k : Nat)
    (rest : DDFTokenSeq) :
    matchValues op want (values.map DDFValue.token ++ .keyword k :: rest) = true ↔
      ∃ v ∈ values, compareTokens op v.token want = some true := by
  induction values with
  | nil => simp [matchValues]
  | cons v values ih =>
    rw [List.exists_mem_cons_iff, ← ih]
    cases v with
    | int i =>
      simp only [List.map_cons, List.cons_append, DDFValue.token, matchValues]
      split <;> simp_all
    | string s =>
      simp only [List.map_cons, List.cons_append, DDFValue.token, CString.token, matchValues]
      split <;> simp_all

section

variable {p : ProvideSection} {provides : DDFTokenSeq}

theorem plainOp_compare (rel : DDFCompare) (no : Bool) (values : List DDFValue) :
    plainOp (DDFTest.compare rel no values).op ≠ opDefined ∧
      (DDFTest.compare rel no values).op ≠ opNot + opDefined := by
  cases rel <;> cases no <;>
    simp [plainOp, DDFTest.op, DDFCompare.op, opEq, opGt, opLt, opNot, opDefined]

theorem satisfiesNeedValue_compares (reads : ∃ rest, provides = ProvideSection.tokens p ++ rest) (name : CString)
    {op : Nat} (compares : plainOp op ≠ opDefined ∧ op ≠ opNot + opDefined) (want : DDFToken) :
    satisfiesNeedValue provides name.chars op (some want) = true ↔
      ∃ values, p.values name = some values ∧ ∃ v ∈ values, compareTokens op v.token want = some true := by
  obtain ⟨rest, rfl⟩ := reads
  have found := findProvide_values p name rest (provides_rounds p rest)
  cases known : p.values name with
  | none =>
    rw [known] at found
    rw [satisfiesNeedValue, found]
    simp [compares.2]
  | some values =>
    rw [known] at found
    obtain ⟨behind, found⟩ := found
    rw [satisfiesNeedValue, found]
    simp only [compares.1, if_false, matchValues_iff, Option.some.injEq, exists_eq_left']

theorem satisfiesNeedValue_defined (reads : ∃ rest, provides = ProvideSection.tokens p ++ rest) (name : CString)
    (no : Bool) :
    satisfiesNeedValue provides name.chars (DDFTest.defined no).op none = true ↔
      Unless no (p.values name ≠ none) := by
  obtain ⟨rest, rfl⟩ := reads
  have found := findProvide_values p name rest (provides_rounds p rest)
  cases known : p.values name with
  | none =>
    rw [known] at found
    rw [satisfiesNeedValue, found]
    cases no <;> simp [DDFTest.op, opNot, opDefined, Unless]
  | some values =>
    rw [known] at found
    obtain ⟨behind, found⟩ := found
    rw [satisfiesNeedValue, found]
    cases no <;> simp [DDFTest.op, opNot, opDefined, Unless, plainOp, negated]

theorem satisfiesNeedValue_iff (reads : ∃ rest, provides = ProvideSection.tokens p ++ rest)
    (name : CString) (rel : DDFCompare) (no : Bool) (wanted : List DDFValue) (want : DDFValue)
    (noOverflow : rel = .eq ∨ ∀ i j, want = .int j → ∀ values, p.values name = some values →
      .int i ∈ values →
        -2 ^ 31 ≤ i.value.toInt - j.value.toInt ∧ i.value.toInt - j.value.toInt < 2 ^ 31) :
    satisfiesNeedValue provides name.chars (DDFTest.compare rel no wanted).op (some want.token) = true ↔
      ∃ values, p.values name = some values ∧ ∃ v ∈ values, v.Meets rel no want := by
  rw [satisfiesNeedValue_compares reads name (plainOp_compare rel no wanted)]
  refine exists_congr fun values => and_congr_right fun known =>
    exists_congr fun v => and_congr_right fun member => ?_
  refine compareTokens_meets rel no wanted v want (noOverflow.imp_right fun bound i j isInt wants => ?_)
  exact bound i j wants values known (isInt ▸ member)

theorem satisfiesValues_iff (reads : ∃ rest, provides = ProvideSection.tokens p ++ rest) (name : CString)
    (rel : DDFCompare) (no : Bool) (wanted values : List DDFValue)
    (noOverflow : rel = .eq ∨ ∀ i j, .int j ∈ values → ∀ values, p.values name = some values →
      .int i ∈ values →
        -2 ^ 31 ≤ i.value.toInt - j.value.toInt ∧ i.value.toInt - j.value.toInt < 2 ^ 31)
    (rest : DDFTokenSeq) :
    ∃ answer, satisfiesValues provides name.chars (DDFTest.compare rel no wanted).op
        (values.map DDFValue.token ++ .keyword kEndNeed :: rest) = (answer, rest) ∧
      (answer = true ↔ ∀ want ∈ values, ∃ held, p.values name = some held ∧
        ∃ v ∈ held, v.Meets rel no want) := by
  induction values with
  | nil => exact ⟨true, rfl, by simp⟩
  | cons want values ih =>
    have later := ih (noOverflow.imp_right fun bound i j member => bound i j (List.mem_cons_of_mem _ member))
    obtain ⟨answer, read, answers⟩ := later
    have value := satisfiesNeedValue_iff reads name rel no wanted want (noOverflow.imp_right
      fun bound i j isInt => bound i j (isInt ▸ List.mem_cons_self))
    have unfold : satisfiesValues provides name.chars (DDFTest.compare rel no wanted).op
        ((want :: values).map DDFValue.token ++ .keyword kEndNeed :: rest) =
        if satisfiesNeedValue provides name.chars (DDFTest.compare rel no wanted).op
            (some want.token) = true then (answer, rest)
        else (false, skipNeed (values.map DDFValue.token ++ .keyword kEndNeed :: rest)) := by
      rw [← read]
      cases want <;> rfl
    have skipped : skipNeed (values.map DDFValue.token ++ .keyword kEndNeed :: rest) = rest := by
      clear ih read answers unfold noOverflow
      induction values with
      | nil => rfl
      | cons v values ih => cases v <;> simpa [DDFValue.token, CString.token, skipNeed] using ih
    rw [unfold, skipped, List.forall_mem_cons, ← value]
    by_cases met : satisfiesNeedValue provides name.chars (DDFTest.compare rel no wanted).op
        (some want.token) = true
    · exact ⟨answer, by rw [if_pos met], by rw [answers]; simp [met]⟩
    · exact ⟨false, by rw [if_neg met], by simp [met]⟩

theorem satisfiesNeed_compare (reads : ∃ rest, provides = ProvideSection.tokens p ++ rest) (n : DDFNeed)
    (compares : n.Compares) (noOverflow : n.NoOverflow p) (rest : DDFTokenSeq) :
    ∃ answer, satisfiesNeed provides (n.tokens ++ rest) = (answer, rest) ∧
      (answer = true ↔ n.SatisfiedBy p) := by
  obtain ⟨name, test⟩ := n
  cases test with
  | defined no => exact absurd compares id
  | compare rel no wanted =>
    obtain ⟨answer, read, answers⟩ := satisfiesValues_iff reads name rel no wanted wanted noOverflow rest
    refine ⟨answer, ?_, answers⟩
    rw [← read]
    simp [DDFNeed.tokens, CString.token, satisfiesNeed, DDFTest.values,
      (plainOp_compare rel no wanted).1]

theorem satisfiesNeed_defined (provides : DDFTokenSeq) (n : DDFNeed) (defined : ¬ n.Compares) (rest : DDFTokenSeq) :
    ∃ answer, satisfiesNeed provides (n.tokens ++ rest) = (answer, .keyword kEndNeed :: rest) := by
  obtain ⟨name, test⟩ := n
  cases test with
  | compare rel no wanted => exact absurd trivial defined
  | defined no =>
    have plain : plainOp (DDFTest.defined no).op = opDefined := by cases no <;> rfl
    refine ⟨satisfiesNeedValue provides name.chars (DDFTest.defined no).op none, ?_⟩
    simp [DDFNeed.tokens, CString.token, satisfiesNeed, DDFTest.values, plain]

theorem Passes.cons_iff (n : DDFNeed) (clause : List DDFNeed) :
    Passes p (n :: clause) ↔ (n.Compares ∧ n.SatisfiedBy p) ∧ Passes p clause :=
  List.forall_mem_cons

theorem failsLast_cons (n : DDFNeed) (clause : List DDFNeed) :
    FailsLast p (n :: clause) ↔
      (n.Compares ∧ ¬ n.SatisfiedBy p ∧ clause = []) ∨
        (n.Compares ∧ n.SatisfiedBy p) ∧ FailsLast p clause := by
  constructor
  · rintro ⟨before, last, split, passes, compares, fails⟩
    cases before with
    | nil =>
      cases split
      exact .inl ⟨compares, fails, rfl⟩
    | cons first before =>
      cases split
      exact .inr ⟨passes n List.mem_cons_self, before, last, rfl,
        fun m member => passes m (List.mem_cons_of_mem _ member), compares, fails⟩
  · rintro (⟨compares, fails, rfl⟩ | ⟨first, before, last, rfl, passes, compares, fails⟩)
    · exact ⟨[], n, rfl, fun _ => nofun, compares, fails⟩
    · exact ⟨n :: before, last, rfl, List.forall_mem_cons.mpr ⟨first, passes⟩, compares, fails⟩

theorem skipClause_need (n : DDFNeed) (rest : DDFTokenSeq) : skipClause (n.tokens ++ rest) = none := by
  have values : skipClause (n.test.values.map DDFValue.token ++ .keyword kEndNeed :: rest) = none := by
    induction n.test.values with
    | nil => rfl
    | cons v values ih => cases v <;> simpa [DDFValue.token, CString.token, skipClause] using ih
  simpa [DDFNeed.tokens, CString.token, skipClause] using values

theorem DDFNeed.tokens_append (n : DDFNeed) (ahead : DDFTokenSeq) :
    ∃ rest, n.tokens ++ ahead = .string n.name.chars :: rest := ⟨_, rfl⟩

theorem ddfSatisfiesUpTo_passed {n : DDFNeed} {ahead behind : DDFTokenSeq} (count : Nat)
    (read : satisfiesNeed provides (n.tokens ++ ahead) = (true, behind)) :
    ddfSatisfiesUpTo provides (count + 1) (n.tokens ++ ahead) = ddfSatisfiesUpTo provides count behind := by
  obtain ⟨rest, tokens⟩ := n.tokens_append ahead
  rw [tokens] at read ⊢
  simp only [ddfSatisfiesUpTo, read]

theorem ddfSatisfiesUpTo_ends {n : DDFNeed} {ahead behind : DDFTokenSeq} (count : Nat)
    (read : satisfiesNeed provides (n.tokens ++ ahead) = (false, behind)) (last : skipClause behind = none) :
    ddfSatisfiesUpTo provides (count + 1) (n.tokens ++ ahead) = false := by
  obtain ⟨rest, tokens⟩ := n.tokens_append ahead
  rw [tokens] at read ⊢
  simp only [ddfSatisfiesUpTo, read, last]

theorem ddfSatisfiesUpTo_next {n : DDFNeed} {ahead behind clause : DDFTokenSeq} (count : Nat)
    (read : satisfiesNeed provides (n.tokens ++ ahead) = (false, behind))
    (next : skipClause behind = some clause) :
    ddfSatisfiesUpTo provides (count + 1) (n.tokens ++ ahead) = ddfSatisfiesUpTo provides count clause := by
  obtain ⟨rest, tokens⟩ := n.tokens_append ahead
  rw [tokens] at read ⊢
  simp only [ddfSatisfiesUpTo, read, next]

def rounds (clause : List DDFNeed) (others : List (List DDFNeed)) : Nat :=
  clause.length + (others.map fun c => c.length + 1).sum + 1

theorem ddfSatisfiesUpTo_iff (reads : ∃ rest, provides = ProvideSection.tokens p ++ rest)
    (clause : List DDFNeed) (others : List (List DDFNeed))
    (noOverflow : ∀ c ∈ clause :: others, ∀ n ∈ c, n.NoOverflow p) {count : Nat}
    (enough : rounds clause others ≤ count) (rest : DDFTokenSeq) :
    ddfSatisfiesUpTo provides count
        (clause.flatMap DDFNeed.tokens ++ (NeedSection.othersTokens others ++ rest)) = true ↔
      FindsClause p (clause :: others) := by
  induction count generalizing clause others with
  | zero => simp [rounds] at enough
  | succ count ih =>
    cases clause with
    | nil =>
      have passes : Passes p [] := fun _ => nofun
      cases others with
      | nil => simp [NeedSection.othersTokens, ddfSatisfiesUpTo, FindsClause, passes]
      | cons next others => simp [NeedSection.othersTokens, ddfSatisfiesUpTo, FindsClause, passes]
    | cons n clause =>
      obtain ⟨ahead, aheadEq⟩ : ∃ ahead, ahead = clause.flatMap DDFNeed.tokens ++
        (NeedSection.othersTokens others ++ rest) := ⟨_, rfl⟩
      have split : (n :: clause).flatMap DDFNeed.tokens ++ (NeedSection.othersTokens others ++ rest) =
          n.tokens ++ ahead := by
        rw [aheadEq, List.flatMap_cons, List.append_assoc]
      have less : rounds clause others ≤ count := by
        simp only [rounds, List.length_cons] at enough ⊢
        omega
      rw [split]
      simp only [FindsClause, Passes.cons_iff, failsLast_cons]
      by_cases compares : n.Compares
      · have bounded := noOverflow _ List.mem_cons_self n List.mem_cons_self
        obtain ⟨answer, read, answers⟩ := satisfiesNeed_compare reads n compares bounded ahead
        cases answer with
        | true =>
          -- satisfied: on to the next need
          have satisfied := answers.mp rfl
          have bounded : ∀ c ∈ clause :: others, ∀ m ∈ c, m.NoOverflow p := by
            refine List.forall_mem_cons.mpr ⟨fun m member => ?_, fun c member => ?_⟩
            · exact noOverflow _ List.mem_cons_self m (List.mem_cons_of_mem _ member)
            · exact noOverflow c (List.mem_cons_of_mem _ member)
          have later := ih clause others bounded less
          rw [ddfSatisfiesUpTo_passed count read, aheadEq, later]
          simp [FindsClause, compares, satisfied]
        | false =>
          have fails : ¬ n.SatisfiedBy p := fun satisfied => by simpa using answers.mpr satisfied
          simp only [compares, fails, and_false, false_and, not_false_eq_true, true_and, or_false, false_or]
          cases clause with
          | cons m clause =>
            -- the end of the next need stops the skip
            have stops : skipClause ahead = none := by
              rw [aheadEq, List.flatMap_cons, List.append_assoc, skipClause_need]
            rw [ddfSatisfiesUpTo_ends count read stops]
            simp
          | nil =>
            cases others with
            | nil =>
              have last : skipClause ahead = none := by
                simp [aheadEq, NeedSection.othersTokens, skipClause, kEndNeedSection, kOr]
              rw [ddfSatisfiesUpTo_ends count read last]
              simp [FindsClause]
            | cons next others =>
              have skipped : skipClause ahead = some (next.flatMap DDFNeed.tokens ++
                  (NeedSection.othersTokens others ++ rest)) := by
                simp [aheadEq, NeedSection.othersTokens, skipClause]
              have later := ih next others (fun c member => noOverflow c (List.mem_cons_of_mem _ member)) (by
                simp only [rounds, List.map_cons, List.sum_cons] at less ⊢
                omega)
              rw [ddfSatisfiesUpTo_next count read skipped, later]
              simp
      · obtain ⟨answer, read⟩ := satisfiesNeed_defined provides n compares ahead
        cases answer with
        | true =>
          have stops : ddfSatisfiesUpTo provides count (.keyword kEndNeed :: ahead) = false := by
            cases count <;> simp [ddfSatisfiesUpTo, kEndNeed, kOr, kEndNeedSection]
          rw [ddfSatisfiesUpTo_passed count read, stops]
          simp [compares]
        | false =>
          have stops : skipClause (.keyword kEndNeed :: ahead) = none := by
            simp [skipClause, kEndNeed, kOr]
          rw [ddfSatisfiesUpTo_ends count read stops]
          simp [compares]

theorem rounds_le (clause : List DDFNeed) (others : List (List DDFNeed)) :
    rounds clause others ≤
      (clause.flatMap DDFNeed.tokens ++ NeedSection.othersTokens others).length + 1 := by
  have each : ∀ c : List DDFNeed, c.length ≤ (c.flatMap DDFNeed.tokens).length :=
    length_le_flatMap fun n => by simp [DDFNeed.tokens]
  have behind : (others.map fun c => c.length + 1).sum ≤ (NeedSection.othersTokens others).length := by
    induction others with
    | nil => simp
    | cons c others ih =>
      have first := each c
      simp only [List.map_cons, List.sum_cons, NeedSection.othersTokens, List.length_cons,
        List.length_append]
      omega
  have first := each clause
  simp only [rounds, List.length_append]
  omega

theorem FindsClause.satisfied {clauses : List (List DDFNeed)} (finds : FindsClause p clauses) :
    ∃ clause ∈ clauses, ∀ n ∈ clause, n.SatisfiedBy p := by
  induction clauses with
  | nil => exact finds.elim
  | cons clause rest ih =>
    rcases finds with passes | ⟨_, later⟩
    · exact ⟨clause, List.mem_cons_self, fun n member => (passes n member).2⟩
    · obtain ⟨found, member, satisfied⟩ := ih later
      exact ⟨found, List.mem_cons_of_mem _ member, satisfied⟩

end

theorem ddfSatisfies_finds (p : ProvideSection) (s : NeedSection) (behindP behindN : List Byte)
    (noOverflow : ∀ clause ∈ s.clauses, ∀ n ∈ clause, n.NoOverflow p) :
    ddfSatisfies (p.bytes ++ behindP) (s.bytes ++ behindN) = true ↔ FindsClause p s.clauses := by
  obtain ⟨rest, tokens⟩ := s.reads.initTokenSeq behindN
  have provides := (ProvideSection.reads p).initTokenSeq behindP
  have length := s.reads.length
  have enough : rounds s.first s.others ≤ (s.bytes ++ behindN).length + 1 := by
    refine le_trans (rounds_le s.first s.others) ?_
    have total : (s.bytes ++ behindN).length = s.bytes.length + behindN.length := List.length_append
    rw [NeedSection.tokens] at length
    omega
  rw [ddfSatisfies, tokens, NeedSection.tokens, List.append_assoc]
  exact ddfSatisfiesUpTo_iff provides s.first s.others noOverflow enough rest

theorem Readable.ddfSatisfies_iff {p : ProvideSection} {s : NeedSection} (readable : Readable p s)
    (behindP behindN : List Byte) :
    ddfSatisfies (p.bytes ++ behindP) (s.bytes ++ behindN) = true ↔ Satisfies p s := by
  rw [ddfSatisfies_finds p s behindP behindN readable.noOverflow]
  exact ⟨FindsClause.satisfied, readable.finds⟩

end Portfolio.Kernel
