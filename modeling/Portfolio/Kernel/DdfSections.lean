import Portfolio.Kernel.DdfTokens
import Mathlib.Algebra.Ring.Int.Defs

set_option autoImplicit false

namespace Portfolio.Kernel

open Portfolio.Lib

structure CString where
  chars : CharPtr
  noNul : chars.contains 0 = false

structure DDFInt where
  neg : Bool
  high : Fin 8
  digits : List Byte
  short : digits.length ≤ 4

inductive DDFValue
  | int (i : DDFInt)
  | string (s : CString)

inductive DDFCompare
  | eq
  | gt
  | lt
  deriving DecidableEq

inductive DDFTest
  | defined (no : Bool)
  | compare (rel : DDFCompare) (no : Bool) (values : List DDFValue)

structure DDFNeed where
  name : CString
  test : DDFTest

structure NeedSection where
  first : List DDFNeed
  others : List (List DDFNeed)

structure DDFProvide where
  name : CString
  values : List DDFValue

abbrev ProvideSection := List DDFProvide

def keywordByte (k : Nat) : Byte := BitVec.ofNat 8 (9 * 16 + k)

def opByte (op : Nat) : Byte := BitVec.ofNat 8 (10 * 16 + op)

def CString.bytes (s : CString) : List Byte := 0x80 :: (s.chars ++ [0])

def CString.token (s : CString) : DDFToken := .string s.chars

namespace DDFInt

def bytes (i : DDFInt) : List Byte :=
  BitVec.ofNat 8 ((i.digits.length + 1) * 16 + ((if i.neg = true then 8 else 0) + i.high.val)) :: i.digits

def value (i : DDFInt) : BitVec 32 :=
  let num := readInt (BitVec.ofNat 32 i.high.val) i.digits
  if i.neg = true then -num else num

end DDFInt

namespace DDFValue

def bytes : DDFValue → List Byte
  | .int i => i.bytes
  | .string s => s.bytes

def token : DDFValue → DDFToken
  | .int i => .int i.value
  | .string s => s.token

end DDFValue

def DDFCompare.op : DDFCompare → Nat
  | .eq => opEq
  | .gt => opGt
  | .lt => opLt

namespace DDFTest

def op : DDFTest → Nat
  | .defined no => (if no = true then opNot else 0) + opDefined
  | .compare rel no _ => (if no = true then opNot else 0) + rel.op

def values : DDFTest → List DDFValue
  | .defined _ => []
  | .compare _ _ values => values

end DDFTest

namespace DDFNeed

def bytes (n : DDFNeed) : List Byte :=
  n.name.bytes ++ opByte n.test.op :: (n.test.values.flatMap DDFValue.bytes ++ [keywordByte kEndNeed])

def tokens (n : DDFNeed) : DDFTokenSeq :=
  n.name.token :: .op n.test.op :: (n.test.values.map DDFValue.token ++ [.keyword kEndNeed])

end DDFNeed

namespace NeedSection

def clauses (s : NeedSection) : List (List DDFNeed) := s.first :: s.others

def othersBytes : List (List DDFNeed) → List Byte
  | [] => [keywordByte kEndNeedSection]
  | clause :: rest => keywordByte kOr :: (clause.flatMap DDFNeed.bytes ++ othersBytes rest)

def othersTokens : List (List DDFNeed) → DDFTokenSeq
  | [] => [.keyword kEndNeedSection]
  | clause :: rest => .keyword kOr :: (clause.flatMap DDFNeed.tokens ++ othersTokens rest)

def bytes (s : NeedSection) : List Byte := s.first.flatMap DDFNeed.bytes ++ othersBytes s.others

def tokens (s : NeedSection) : DDFTokenSeq := s.first.flatMap DDFNeed.tokens ++ othersTokens s.others

end NeedSection

namespace DDFProvide

def bytes (p : DDFProvide) : List Byte :=
  p.name.bytes ++ (p.values.flatMap DDFValue.bytes ++ [keywordByte kEndProvide])

def tokens (p : DDFProvide) : DDFTokenSeq :=
  p.name.token :: (p.values.map DDFValue.token ++ [.keyword kEndProvide])

end DDFProvide

namespace ProvideSection

def bytes (s : ProvideSection) : List Byte :=
  s.flatMap DDFProvide.bytes ++ [keywordByte kEndProvideSection]

def tokens (s : ProvideSection) : DDFTokenSeq :=
  s.flatMap DDFProvide.tokens ++ [.keyword kEndProvideSection]

def values (s : ProvideSection) (name : CString) : Option (List DDFValue) :=
  (s.find? fun p => p.name.chars == name.chars).map DDFProvide.values

end ProvideSection

def DDFCompare.Holds {α : Type} [LT α] (rel : DDFCompare) (a b : α) : Prop :=
  match rel with
  | .eq => a = b
  | .gt => b < a
  | .lt => a < b

def Unless (no : Bool) (p : Prop) : Prop := if no = true then ¬p else p

def DDFValue.Meets (rel : DDFCompare) (no : Bool) : DDFValue → DDFValue → Prop
  | .int v, .int w => Unless no (rel.Holds v.value.toInt w.value.toInt)
  | .string s, .string t =>
    Unless no (rel.Holds (s.chars.map BitVec.toNat) (t.chars.map BitVec.toNat))
  | _, _ => False

def DDFNeed.SatisfiedBy (p : ProvideSection) (n : DDFNeed) : Prop :=
  match n.test with
  | .defined no => Unless no (p.values n.name ≠ none)
  | .compare rel no wanted =>
    ∀ want ∈ wanted, ∃ values, p.values n.name = some values ∧ ∃ v ∈ values, v.Meets rel no want

def Satisfies (p : ProvideSection) (s : NeedSection) : Prop :=
  ∃ clause ∈ s.clauses, ∀ n ∈ clause, n.SatisfiedBy p

def DDFNeed.Compares (n : DDFNeed) : Prop :=
  match n.test with
  | .defined _ => False
  | .compare _ _ _ => True

def DDFNeed.NoOverflow (p : ProvideSection) (n : DDFNeed) : Prop :=
  match n.test with
  | .defined _ => True
  | .compare rel _ wanted =>
    rel = .eq ∨ ∀ v w, .int w ∈ wanted → ∀ values, p.values n.name = some values → .int v ∈ values →
      -2 ^ 31 ≤ v.value.toInt - w.value.toInt ∧ v.value.toInt - w.value.toInt < 2 ^ 31

def Passes (p : ProvideSection) (clause : List DDFNeed) : Prop :=
  ∀ n ∈ clause, n.Compares ∧ n.SatisfiedBy p

def FailsLast (p : ProvideSection) (clause : List DDFNeed) : Prop :=
  ∃ before last, clause = before ++ [last] ∧ Passes p before ∧ last.Compares ∧ ¬ last.SatisfiedBy p

def FindsClause (p : ProvideSection) : List (List DDFNeed) → Prop
  | [] => False
  | clause :: rest => Passes p clause ∨ FailsLast p clause ∧ FindsClause p rest

structure Readable (p : ProvideSection) (s : NeedSection) : Prop where
  noOverflow : ∀ clause ∈ s.clauses, ∀ n ∈ clause, n.NoOverflow p
  finds : Satisfies p s → FindsClause p s.clauses

end Portfolio.Kernel
