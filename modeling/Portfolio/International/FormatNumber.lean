import Portfolio.Lib.Decimal

set_option autoImplicit false

namespace Portfolio.International

open Portfolio.Lib

abbrev Unichar := BitVec 16

structure UniString where
  chars : List Unichar
  noNul : ∀ c ∈ chars, c ≠ 0

abbrev GroupingDesc := BitVec 32

structure NumericSide where
  groups : GroupingDesc
  groupSep : Option UniString
  radix : Option UniString
  fractionalGroups : GroupingDesc
  fractionalGroupSep : Option UniString
  format : Option UniString
  minFractionalDigits : Nat
  maxFractionalDigits : Nat

structure NumericSpec where
  pos : NumericSide
  neg : NumericSide
  zero : Option UniString

def tempLength : Nat := 80
def fracPartLength : Nat := 16
def wholePartLength : Nat := 16

def percent : Unichar := 37
def minus : Unichar := 45
def letterS : Unichar := 115

def numeral (digit : Nat) : Unichar := BitVec.ofNat 16 (48 + digit)

structure Target where
  text : List Unichar
  tooLong : Bool

def Target.empty : Target := ⟨[], false⟩

section

variable (size maxIndex : Nat)

def putCh (target : Target) (ch : Unichar) : Option Target :=
  if target.text.length < maxIndex then
    if target.text.length < size then some { target with text := target.text ++ [ch] } else none
  else some { target with tooLong := true }

def putStr (target : Target) : List Unichar → Option Target
  | [] => some target
  | ch :: str =>
    if target.text.length < maxIndex then
      if target.text.length < size then putStr { target with text := target.text ++ [ch] } str else none
    else some { target with tooLong := true }

def endText (target : Target) : Option Target :=
  if target.text.length < size then some target else none

def putWhole (groups : GroupingDesc) (sep : List Unichar) (i : Nat) (target : Target) : List Unichar → Option Target
  | [] => some target
  | ch :: rest =>
    (if groups.getLsbD rest.length = true ∧ i ≠ 0 then putStr size maxIndex target sep else some target).bind
      fun target => (putCh size maxIndex target ch).bind fun target => putWhole groups sep (i + 1) target rest

def putFraction (fracSep : List Unichar) (fracGroups : GroupingDesc) (target : Target) : List Unichar → Option Target
  | [] => some target
  | ch :: rest =>
    (putCh size maxIndex target ch).bind fun target =>
      (if rest ≠ [] ∧ fracGroups.getLsbD 0 = true then putStr size maxIndex target fracSep else some target).bind
        fun target => putFraction fracSep (fracGroups / 2) target rest

/-- The formatting string, with the number for `%s`. A `%` at its end puts its NUL. -/
def putFormat (number : List Unichar) (target : Target) : List Unichar → Option Target
  | [] => some target
  | [ch] => if ch = percent then putCh size maxIndex target 0 else putCh size maxIndex target ch
  | ch :: next :: rest =>
    if ch = percent then
      (if next = letterS then putStr size maxIndex target number else putCh size maxIndex target next).bind
        fun target => putFormat number target rest
    else (putCh size maxIndex target ch).bind fun target => putFormat number target (next :: rest)

end

def flipDigits : Nat → Nat → Option (List Unichar)
  | 0, _ => none
  | room + 1, num =>
    if num / 10 = 0 then some [numeral (num % 10)]
    else (flipDigits room (num / 10)).map fun flip => numeral (num % 10) :: flip

def convUnsigned (room num : Nat) : Option (List Unichar) :=
  (flipDigits 16 num).bind fun flip => if flip.length < room then some flip.reverse else none

def sprintf09u (frac : Nat) : List Unichar := (decimal (max 9 (decimalWidth frac)) frac).map numeral

/-- The length without the zeros at the end of the first `len` characters. Without an end of them the loop reads in
front of the array. -/
def trimZeros (fracPart : List Unichar) : Nat → Option Nat
  | 0 => none
  | len + 1 => if fracPart[len]? = some (numeral 0) then trimZeros fracPart len else some (len + 1)

def fractionDigits (minFracs maxFracs frac : Nat) : Option (List Unichar) :=
  (trimZeros (sprintf09u frac) 9).map fun len =>
    if maxFracs < len then (sprintf09u frac).take maxFracs
    else (sprintf09u frac).take len ++ List.replicate (min minFracs (fracPartLength - 1) - len) (numeral 0)

namespace NumericSide

variable (side : NumericSide)

def doesFrac (doFrac : Bool) : Bool := doFrac && side.maxFractionalDigits != 0 && side.radix.isSome

def sep : List Unichar := (side.groupSep.map UniString.chars).getD []
def fracSep : List Unichar := (side.fractionalGroupSep.map UniString.chars).getD []
def radixChars : List Unichar := (side.radix.map UniString.chars).getD []

def usedGroups : GroupingDesc := if side.groupSep.isSome = true then side.groups else 0
def usedFracGroups : GroupingDesc := if side.fractionalGroupSep.isSome = true then side.fractionalGroups else 0

def putNumber (size maxIndex : Nat) (negative doFrac : Bool) (whole frac : Nat) : Option Target :=
  (if negative = true ∧ side.format.isNone = true then putCh size maxIndex Target.empty minus
    else some Target.empty).bind fun target =>
  (convUnsigned wholePartLength whole).bind fun wholePart =>
  (putWhole size maxIndex side.usedGroups side.sep 0 target wholePart).bind fun target =>
  if side.doesFrac doFrac = true then
    (putStr size maxIndex target side.radixChars).bind fun target =>
    (fractionDigits side.minFractionalDigits side.maxFractionalDigits frac).bind fun fracPart =>
    putFraction size maxIndex side.fracSep side.usedFracGroups target fracPart
  else some target

end NumericSide

namespace NumericSpec

variable (spec : NumericSpec)

def side (negative : Bool) : NumericSide := if negative = true then spec.neg else spec.pos

def zeroText (whole frac : BitVec 32) (doFrac : Bool) : Option UniString :=
  if whole = 0 ∧ (frac = 0 ∨ doFrac = false) then spec.zero else none

end NumericSpec

/-- The text before the NUL at its end, or `none` in place of it if the buffer is too small. -/
def internalFormatNumber (spec : NumericSpec) (whole frac : BitVec 32) (negative doFrac : Bool)
    (resultSize : BitVec 32) : Option (Option (List Unichar)) :=
  let size := (resultSize / 2).toNat
  let maxIndex := (resultSize / 2 - 1).toNat
  let returns (target : Target) : Option (List Unichar) := if target.tooLong = true then none else some target.text
  match spec.zeroText whole frac doFrac with
  | some zero => (putStr size maxIndex Target.empty zero.chars).bind fun target => (endText size target).map returns
  | none =>
    let side := spec.side negative
    match side.format with
    | none =>
      (side.putNumber size maxIndex negative doFrac whole.toNat frac.toNat).bind fun target =>
        (endText size target).map returns
    | some format =>
      -- `sizeof(temp)` counts bytes
      (side.putNumber tempLength (2 * tempLength - 1) negative doFrac whole.toNat frac.toNat).bind fun temp =>
        (endText tempLength temp).bind fun temp =>
          if temp.tooLong = true then some none
          else
            (putFormat size maxIndex temp.text Target.empty format.chars).bind fun target =>
              (endText size target).map returns

def grouped (groups : GroupingDesc) (sep digits : List Unichar) : List Unichar :=
  digits.zipIdx.flatMap fun (digit, i) =>
    (if groups.getLsbD (digits.length - 1 - i) = true ∧ i ≠ 0 then sep else []) ++ [digit]

def groupedFraction (groups : GroupingDesc) (sep digits : List Unichar) : List Unichar :=
  digits.zipIdx.flatMap fun (digit, i) =>
    digit :: (if i + 1 < digits.length ∧ groups.getLsbD i = true then sep else [])

def places (minFracs maxFracs frac : Nat) : Nat :=
  if maxFracs < significant 9 frac then maxFracs else max (significant 9 frac) (min minFracs (fracPartLength - 1))

namespace NumericSide

variable (side : NumericSide)

def wholeText (whole : Nat) : List Unichar :=
  grouped side.usedGroups side.sep ((decimal (decimalWidth whole) whole).map numeral)

def fractionText (frac : Nat) : List Unichar :=
  groupedFraction side.usedFracGroups side.fracSep
    ((((decimal 9 frac) ++ List.replicate 6 0).take
      (places side.minFractionalDigits side.maxFractionalDigits frac)).map numeral)

def numberText (negative doFrac : Bool) (whole frac : Nat) : List Unichar :=
  (if negative = true ∧ side.format.isNone = true then [minus] else []) ++ side.wholeText whole ++
    if side.doesFrac doFrac = true then side.radixChars ++ side.fractionText frac else []

end NumericSide

def formatText (number : List Unichar) : List Unichar → List Unichar
  | [] => []
  | [ch] => if ch = percent then [] else [ch]
  | ch :: next :: rest =>
    if ch = percent then (if next = letterS then number else [next]) ++ formatText number rest
    else ch :: formatText number (next :: rest)

def formatChars (number : List Unichar) : List Unichar → List Unichar
  | [] => []
  | [ch] => if ch = percent then [0] else [ch]
  | ch :: next :: rest =>
    if ch = percent then (if next = letterS then number else [next]) ++ formatChars number rest
    else [ch] ++ formatChars number (next :: rest)

def NumericSpec.text (spec : NumericSpec) (whole frac : BitVec 32) (negative doFrac : Bool) : List Unichar :=
  match spec.zeroText whole frac doFrac with
  | some zero => zero.chars
  | none =>
    let number := (spec.side negative).numberText negative doFrac whole.toNat frac.toNat
    match (spec.side negative).format with
    | none => number
    | some format => formatText number format.chars

/-- A fraction below one with a digit in it, and a number that `temp` has room for. -/
structure NumericSpec.Printable (spec : NumericSpec) (whole frac : BitVec 32) (negative doFrac : Bool) : Prop where
  fraction : (spec.side negative).doesFrac doFrac = true → 0 < frac.toNat ∧ frac.toNat < 10 ^ 9
  fits : (spec.side negative).format.isSome = true →
    ((spec.side negative).numberText negative doFrac whole.toNat frac.toNat).length < tempLength

end Portfolio.International
