import Portfolio.International.FormatNumber

set_option autoImplicit false

namespace Portfolio.International

open Portfolio.Lib

section

variable {size maxIndex : Nat}

structure Wrote (maxIndex : Nat) (all : List Unichar) (target : Target) : Prop where
  text : target.text = all.take maxIndex
  tooLong : target.tooLong = true ↔ maxIndex < all.length

def Puts (size maxIndex : Nat) (part : Target → Option Target) (put : List Unichar) : Prop :=
  ∀ target all, Wrote maxIndex all target → min maxIndex (all ++ put).length ≤ size →
    ∃ target', part target = some target' ∧ Wrote maxIndex (all ++ put) target'

theorem Wrote.empty : Wrote maxIndex [] Target.empty :=
  ⟨List.take_nil.symm, iff_of_false Bool.false_ne_true (Nat.not_lt_zero _)⟩

theorem Puts.none : Puts size maxIndex some [] := by
  intro target all wrote _
  exact ⟨target, rfl, by rwa [List.append_nil]⟩

theorem Puts.bind {part part' : Target → Option Target} {put put' : List Unichar} (first : Puts size maxIndex part put)
    (next : Puts size maxIndex part' put') :
    Puts size maxIndex (fun target => (part target).bind part') (put ++ put') := by
  intro target all wrote inside
  rw [← List.append_assoc] at inside ⊢
  have shorter : (all ++ put).length ≤ (all ++ put ++ put').length := by
    rw [@List.length_append _ (all ++ put)]
    exact Nat.le_add_right _ _
  obtain ⟨target', done, wrote'⟩ := first target all wrote (by omega)
  obtain ⟨target'', done', wrote''⟩ := next target' (all ++ put) wrote' inside
  refine ⟨target'', ?_, wrote''⟩
  dsimp only
  rw [done, Option.bind_some, done']

theorem Puts.ite {part part' : Target → Option Target} {put put' : List Unichar} {c c' : Prop} [Decidable c]
    [Decidable c'] (same : c ↔ c') (yes : Puts size maxIndex part put) (no : Puts size maxIndex part' put') :
    Puts size maxIndex (fun target => if c then part target else part' target) (if c' then put else put') := by
  by_cases holds : c
  · simp only [if_pos holds, if_pos (same.mp holds)]
    exact yes
  · simp only [if_neg holds, if_neg (mt same.mpr holds)]
    exact no

theorem putCh_puts (ch : Unichar) : Puts size maxIndex (fun target => putCh size maxIndex target ch) [ch] := by
  intro target all wrote inside
  have length : target.text.length = min maxIndex all.length := by rw [wrote.text, List.length_take]
  rw [List.length_append, List.length_singleton] at inside
  dsimp only
  rw [putCh]
  by_cases room : target.text.length < maxIndex
  · have all' : target.text = all := by
      rw [wrote.text, List.take_of_length_le (by omega)]
    rw [if_pos room, if_pos (by omega)]
    refine ⟨_, rfl, ?_, ?_⟩
    · rw [List.take_of_length_le (by rw [List.length_append, List.length_singleton]; omega), all']
    · rw [List.length_append, List.length_singleton]
      exact wrote.tooLong.trans (iff_of_false (by omega) (by omega))
  · rw [if_neg room]
    refine ⟨_, rfl, ?_, ?_⟩
    · rw [List.take_append_of_le_length (by omega), wrote.text]
    · rw [List.length_append, List.length_singleton]
      exact iff_of_true rfl (by omega)

theorem putStr_full {target : Target} (full : ¬ target.text.length < maxIndex) (tooLong : target.tooLong = true)
    (str : List Unichar) : putStr size maxIndex target str = some target := by
  cases str with
  | nil => rfl
  | cons ch str =>
    rw [putStr, if_neg full, ← tooLong]

theorem putStr_puts (str : List Unichar) : Puts size maxIndex (fun target => putStr size maxIndex target str) str := by
  induction str with
  | nil => exact Puts.none
  | cons ch str ih =>
    have both := (@putCh_puts size maxIndex ch).bind ih
    intro target all wrote inside
    obtain ⟨target', done, wrote'⟩ := both target all wrote inside
    refine ⟨target', ?_, wrote'⟩
    rw [← done]
    dsimp only
    rw [putStr, putCh]
    split_ifs with room
    · rfl
    · rfl
    · exact (@putStr_full size maxIndex { target with tooLong := true } room rfl str).symm

theorem putWhole_puts (groups : GroupingDesc) (sep : List Unichar) (digits : List Unichar) (i : Nat) :
    Puts size maxIndex (fun target => putWhole size maxIndex groups sep i target digits)
      ((digits.zipIdx i).flatMap fun (digit, j) =>
        (if groups.getLsbD (i + digits.length - 1 - j) = true ∧ j ≠ 0 then sep else []) ++ [digit]) := by
  induction digits generalizing i with
  | nil => exact Puts.none
  | cons ch rest ih =>
    rw [List.zipIdx_cons, List.flatMap_cons, List.append_assoc]
    dsimp only
    rw [show i + (ch :: rest).length - 1 - i = rest.length by rw [List.length_cons]; omega,
      show i + (ch :: rest).length = i + 1 + rest.length by rw [List.length_cons]; omega]
    exact (Puts.ite Iff.rfl (putStr_puts sep) Puts.none).bind ((putCh_puts ch).bind (ih (i + 1)))

theorem putFraction_puts (fracGroups : GroupingDesc) (fracSep : List Unichar) (digits : List Unichar) (i : Nat) :
    Puts size maxIndex (fun target => putFraction size maxIndex fracSep (fracGroups >>> i) target digits)
      ((digits.zipIdx i).flatMap fun (digit, j) =>
        digit :: (if j + 1 < i + digits.length ∧ fracGroups.getLsbD j = true then fracSep else [])) := by
  induction digits generalizing i with
  | nil => exact Puts.none
  | cons ch rest ih =>
    rw [List.zipIdx_cons, List.flatMap_cons, List.cons_append]
    dsimp only
    rw [show i + (ch :: rest).length = i + 1 + rest.length by rw [List.length_cons]; omega]
    have more : rest ≠ [] ∧ (fracGroups >>> i).getLsbD 0 = true ↔
        i + 1 < i + 1 + rest.length ∧ fracGroups.getLsbD i = true := by
      rw [BitVec.getLsbD_ushiftRight, Nat.add_zero, ← List.length_pos_iff]
      exact and_congr_left fun _ => by omega
    have half : fracGroups >>> i / 2 = fracGroups >>> (i + 1) := by
      apply BitVec.eq_of_toNat_eq
      rw [BitVec.toNat_udiv, BitVec.toNat_ushiftRight, BitVec.toNat_ushiftRight, Nat.shiftRight_add]
      rfl
    simp only [putFraction, half]
    exact (putCh_puts ch).bind ((Puts.ite more (putStr_puts fracSep) Puts.none).bind (ih (i + 1)))

theorem putFormat_puts (number : List Unichar) (format : List Unichar) :
    Puts size maxIndex (fun target => putFormat size maxIndex number target format) (formatChars number format) := by
  induction format using formatChars.induct with
  | case1 => exact Puts.none
  | case2 => exact Puts.ite Iff.rfl (putCh_puts 0) (putCh_puts _)
  | case3 ch => exact Puts.ite Iff.rfl (putCh_puts 0) (putCh_puts ch)
  | case4 next rest ih =>
    simp only [putFormat, formatChars]
    exact (Puts.ite Iff.rfl (putStr_puts number) (putCh_puts next)).bind ih
  | case5 ch next rest other ih =>
    simp only [putFormat, formatChars, if_neg other]
    exact (putCh_puts ch).bind ih

end

theorem flipDigits_some (room n : Nat) (fits : decimalWidth n ≤ room) :
    flipDigits room n = some ((decimal (decimalWidth n) n).map numeral).reverse := by
  induction room generalizing n with
  | zero => exact absurd fits (Nat.not_succ_le_zero _)
  | succ room ih =>
    rw [flipDigits]
    by_cases last : n / 10 = 0
    · rw [if_pos last, decimalWidth_small last, decimal_succ]
      rfl
    · rw [decimalWidth_div last] at fits
      rw [if_neg last, ih (n / 10) (Nat.le_of_succ_le_succ fits), decimalWidth_div last, decimal_succ,
        List.map_append, List.reverse_append]
      rfl

theorem convUnsigned_some (n : BitVec 32) :
    convUnsigned wholePartLength n.toNat = some ((decimal (decimalWidth n.toNat) n.toNat).map numeral) := by
  have width : decimalWidth n.toNat ≤ 10 := decimalWidth_le (by decide) (by have bound := n.isLt; omega)
  rw [convUnsigned, flipDigits_some 16 _ (by omega), Option.bind_some, List.length_reverse, List.length_map,
    length_decimal, if_pos (lt_of_le_of_lt width (by decide)), List.reverse_reverse]

theorem numeral_injective {a b : Nat} (ltA : a < 10) (ltB : b < 10) (same : numeral a = numeral b) : a = b := by
  have value := congrArg BitVec.toNat same
  rw [numeral, numeral, BitVec.toNat_ofNat, BitVec.toNat_ofNat] at value
  omega

theorem getElem?_decimal {width n i : Nat} (inside : i < width) :
    (decimal width n)[i]? = some (n / 10 ^ (width - 1 - i) % 10) := by
  rw [decimal, List.getElem?_map, List.getElem?_range inside]
  rfl

theorem trimZeros_some {frac : Nat} (some : 0 < frac) (lt : frac < 10 ^ 9) (len : Nat) (inside : len ≤ 9)
    (zeros : frac % 10 ^ (9 - len) = 0) :
    trimZeros ((decimal 9 frac).map numeral) len = Option.some (significant 9 frac) ∧ significant 9 frac ≤ len ∧
      (decimal 9 frac).take len =
        (decimal 9 frac).take (significant 9 frac) ++ List.replicate (len - significant 9 frac) 0 := by
  induction len with
  | zero =>
    rw [Nat.sub_zero, Nat.mod_eq_of_lt lt] at zeros
    omega
  | succ len ih =>
    have place : (decimal 9 frac)[len]? = Option.some (frac / 10 ^ (9 - (len + 1)) % 10) := by
      rw [getElem?_decimal (by omega), show 9 - 1 - len = 9 - (len + 1) by omega]
    have exponent : 9 - (len + 1) + 1 = 9 - len := by omega
    rw [trimZeros, List.getElem?_map, place, Option.map_some]
    by_cases digit : frac / 10 ^ (9 - (len + 1)) % 10 = 0
    · have more := mod_pow_of_digit zeros digit
      rw [exponent] at more
      obtain ⟨trimmed, le, taken⟩ := ih (by omega) more
      rw [if_pos (by rw [digit]), trimmed]
      refine ⟨rfl, by omega, ?_⟩
      rw [List.take_add_one, place, digit, taken, List.append_assoc, Option.toList_some, ← List.replicate_succ',
        Nat.succ_sub le]
    · have other : ¬ Option.some (numeral (frac / 10 ^ (9 - (len + 1)) % 10)) = Option.some (numeral 0) := fun same =>
        digit (numeral_injective (Nat.mod_lt _ (by decide)) (by decide) (Option.some.inj same))
      have is : significant 9 frac = len + 1 := by
        refine significant_of inside zeros fun t before divides => digit (digit_of_mod_pow ?_)
        rw [exponent]
        exact Nat.mod_eq_zero_of_dvd ((Nat.pow_dvd_pow 10 (by omega)).trans (Nat.dvd_of_mod_eq_zero divides))
      rw [if_neg other, is, Nat.sub_self, List.replicate_zero, List.append_nil]
      exact ⟨rfl, Nat.le_refl _, rfl⟩

theorem fractionDigits_some (minFracs maxFracs : Nat) {frac : Nat} (some : 0 < frac) (lt : frac < 10 ^ 9) :
    fractionDigits minFracs maxFracs frac =
      Option.some (((decimal 9 frac ++ List.replicate 6 0).take (places minFracs maxFracs frac)).map numeral) := by
  have nine : sprintf09u frac = (decimal 9 frac).map numeral := by
    rw [sprintf09u, max_eq_left (decimalWidth_le (by decide) lt)]
  obtain ⟨trimmed, le, taken⟩ := trimZeros_some some lt 9 (Nat.le_refl _) (Nat.mod_one _)
  have all : decimal 9 frac = (decimal 9 frac).take (significant 9 frac) ++
      List.replicate (9 - significant 9 frac) 0 := by
    rw [← taken, List.take_of_length_le (length_decimal 9 frac).le]
  have front : ((decimal 9 frac).take (significant 9 frac)).length = significant 9 frac := by
    rw [List.length_take, length_decimal, min_eq_left le]
  have room : fracPartLength - 1 = 15 := rfl
  rw [fractionDigits, nine, trimmed, Option.map_some, places]
  congr 1
  by_cases more : maxFracs < significant 9 frac
  · rw [if_pos more, if_pos more, ← List.map_take,
      List.take_append_of_le_length (by rw [length_decimal]; omega)]
  · rw [if_neg more, if_neg more, room, ← List.map_take, ← List.map_replicate, ← List.map_append]
    congr 1
    conv_rhs => rw [all]
    generalize (decimal 9 frac).take (significant 9 frac) = digits at front
    rw [List.append_assoc, List.replicate_append_replicate, List.take_append,
      List.take_of_length_le (show digits.length ≤ _ by omega), front, List.take_replicate]
    congr 2
    omega

theorem NumericSide.putNumber_puts (side : NumericSide) (size maxIndex : Nat) (negative doFrac : Bool)
    (whole frac : BitVec 32) (fraction : side.doesFrac doFrac = true → 0 < frac.toNat ∧ frac.toNat < 10 ^ 9)
    (inside : min maxIndex (side.numberText negative doFrac whole.toNat frac.toNat).length ≤ size) :
    ∃ target, side.putNumber size maxIndex negative doFrac whole.toNat frac.toNat = some target ∧
      Wrote maxIndex (side.numberText negative doFrac whole.toNat frac.toNat) target := by
  have sign : Puts size maxIndex
      (fun target => if negative = true ∧ side.format.isNone = true then putCh size maxIndex target minus
        else some target)
      (if negative = true ∧ side.format.isNone = true then [minus] else []) :=
    Puts.ite Iff.rfl (putCh_puts minus) Puts.none
  have digits : Puts size maxIndex
      (fun target => putWhole size maxIndex side.usedGroups side.sep 0 target
        ((decimal (decimalWidth whole.toNat) whole.toNat).map numeral)) (side.wholeText whole.toNat) := by
    have puts := @putWhole_puts size maxIndex side.usedGroups side.sep
      ((decimal (decimalWidth whole.toNat) whole.toNat).map numeral) 0
    simp only [Nat.zero_add] at puts
    exact puts
  have last : Puts size maxIndex
      (fun target => if side.doesFrac doFrac = true then
        (putStr size maxIndex target side.radixChars).bind fun target =>
        (fractionDigits side.minFractionalDigits side.maxFractionalDigits frac.toNat).bind fun fracPart =>
        putFraction size maxIndex side.fracSep side.usedFracGroups target fracPart else some target)
      (if side.doesFrac doFrac = true then side.radixChars ++ side.fractionText frac.toNat else []) := by
    by_cases does : side.doesFrac doFrac = true
    · obtain ⟨some, lt⟩ := fraction does
      have puts := @putFraction_puts size maxIndex side.usedFracGroups side.fracSep
        ((((decimal 9 frac.toNat) ++ List.replicate 6 0).take
          (places side.minFractionalDigits side.maxFractionalDigits frac.toNat)).map numeral) 0
      simp only [Nat.zero_add, BitVec.ushiftRight_zero] at puts
      simp only [if_pos does, fractionDigits_some _ _ some lt, Option.bind_some]
      exact (putStr_puts _).bind puts
    · simp only [if_neg does]
      exact Puts.none
  have number := sign.bind (digits.bind last) Target.empty [] Wrote.empty
  rw [List.nil_append, ← List.append_assoc] at number
  obtain ⟨target, done, wrote⟩ := number inside
  refine ⟨target, ?_, wrote⟩
  rw [putNumber]
  simp only [convUnsigned_some, Option.bind_some]
  exact done

theorem takeWhile_noNul {chars : List Unichar} (rest : List Unichar) (noNul : ∀ c ∈ chars, c ≠ 0) :
    (chars ++ rest).takeWhile (· != 0) = chars ++ rest.takeWhile (· != 0) :=
  List.takeWhile_append_of_pos fun c member => by simpa using noNul c member

theorem formatChars_text {number format : List Unichar} (noNul : ∀ c ∈ number, c ≠ 0) (noNul' : ∀ c ∈ format, c ≠ 0) :
    (formatChars number format).takeWhile (· != 0) = formatText number format := by
  induction format using formatChars.induct with
  | case1 => rfl
  | case2 => rfl
  | case3 ch other =>
    have text := takeWhile_noNul [] noNul'
    rw [List.append_nil] at text
    rw [formatChars, formatText, if_neg other, if_neg other, text]
    rfl
  | case4 next rest ih =>
    rw [List.forall_mem_cons, List.forall_mem_cons] at noNul'
    rw [formatChars, formatText, if_pos rfl, if_pos rfl, takeWhile_noNul, ih noNul'.2.2]
    split
    · exact noNul
    · exact List.forall_mem_singleton.mpr noNul'.2.1
  | case5 ch next rest other ih =>
    rw [List.forall_mem_cons] at noNul'
    rw [formatChars, formatText, if_neg other, if_neg other, takeWhile_noNul _ (List.forall_mem_singleton.mpr noNul'.1),
      ih noNul'.2]
    rfl

theorem numeral_ne_zero {d : Nat} (lt : d < 10) : numeral d ≠ 0 := by
  intro zero
  have value := congrArg BitVec.toNat zero
  rw [numeral, BitVec.toNat_ofNat] at value
  change _ = 0 at value
  omega

theorem optional_noNul (str : Option UniString) : ∀ c ∈ (str.map UniString.chars).getD [], c ≠ 0 := by
  cases str with
  | none => exact fun c member => absurd member List.not_mem_nil
  | some str => exact str.noNul

theorem numberText_noNul (side : NumericSide) (negative doFrac : Bool) (whole frac : Nat) :
    ∀ c ∈ side.numberText negative doFrac whole frac, c ≠ 0 := by
  have separated {sep digits : List Unichar} (first : ∀ c ∈ sep, c ≠ 0) (second : ∀ c ∈ digits, c ≠ 0)
      {c : Unichar} {i : Nat} {d : Unichar} (digit : (d, i) ∈ digits.zipIdx) (p : Prop) [Decidable p]
      (member : c ∈ (if p then sep else []) ∨ c = d) : c ≠ 0 := by
    obtain inSep | rfl := member
    · split at inSep
      · exact first c inSep
      · exact absurd inSep List.not_mem_nil
    · exact second c (List.fst_mem_of_mem_zipIdx digit)
  have numerals {digits : List Nat} (small : ∀ d ∈ digits, d < 10) : ∀ c ∈ digits.map numeral, c ≠ 0 := by
    intro c member
    obtain ⟨d, listed, rfl⟩ := List.mem_map.mp member
    exact numeral_ne_zero (small d listed)
  intro c member
  rw [NumericSide.numberText, List.mem_append, List.mem_append] at member
  obtain (sign | digit) | fraction := member
  · split at sign
    · rw [List.mem_singleton.mp sign]
      decide
    · exact absurd sign List.not_mem_nil
  · obtain ⟨⟨d, i⟩, place, here⟩ := List.mem_flatMap.mp digit
    rw [List.mem_append, List.mem_singleton] at here
    exact separated (optional_noNul side.groupSep) (numerals fun d => decimal_lt) place _ here
  · split at fraction
    · rw [List.mem_append] at fraction
      obtain radix | digit := fraction
      · exact optional_noNul side.radix c radix
      · obtain ⟨⟨d, i⟩, place, here⟩ := List.mem_flatMap.mp digit
        rw [List.mem_cons] at here
        refine separated (optional_noNul side.fractionalGroupSep) (numerals fun d listed => ?_) place _ here.symm
        obtain inDigits | zero := List.mem_append.mp (List.mem_of_mem_take listed)
        · exact decimal_lt inDigits
        · rw [List.eq_of_mem_replicate zero]
          decide
    · exact absurd fraction List.not_mem_nil

theorem ended {size : Nat} {maxIndex : Nat} (last : maxIndex + 1 = size) {chars : List Unichar} {target : Target}
    (wrote : Wrote maxIndex chars target) :
    (endText size target).map (fun target => if target.tooLong = true then none else some target.text) =
      some (if chars.length < size then some chars else none) := by
  have inside : target.text.length < size := by
    rw [wrote.text, List.length_take]
    omega
  rw [endText, if_pos inside, Option.map_some]
  congr 1
  by_cases fits : chars.length < size
  · rw [if_pos fits, if_neg (mt wrote.tooLong.mp (by omega)), wrote.text, List.take_of_length_le (by omega)]
  · rw [if_neg fits, if_pos (wrote.tooLong.mpr (by omega))]

def amountSpec : NumericSpec where
  pos :=
    { groups := 4, groupSep := some ⟨[44], by simp⟩, radix := some ⟨[46], by simp⟩, fractionalGroups := 0
      fractionalGroupSep := none, format := some ⟨[36, 37, 115], by simp⟩
      minFractionalDigits := 2, maxFractionalDigits := 2 }
  neg :=
    { groups := 0, groupSep := none, radix := none, fractionalGroups := 0, fractionalGroupSep := none, format := none
      minFractionalDigits := 0, maxFractionalDigits := 0 }
  zero := some ⟨[110, 105, 108], by simp⟩

end Portfolio.International
