import Portfolio.Lib.Strings

set_option autoImplicit false

namespace Portfolio.Kernel

open Portfolio.Lib

inductive DDFToken
  | int (v : BitVec 32)
  | string (s : CharPtr)
  | keyword (k : Nat)
  | op (o : Nat)
  deriving DecidableEq

abbrev DDFTokenSeq := List DDFToken

def kEndProvide : Nat := 1
def kEndProvideSection : Nat := 2
def kEndNeed : Nat := 3
def kEndNeedSection : Nat := 4
def kOr : Nat := 5

def opEq : Nat := 1
def opGt : Nat := 2
def opLt : Nat := 3
def opDefined : Nat := 4
def opNot : Nat := 8

def plainOp (op : Nat) : Nat := if op % 16 < 8 then op % 16 else op % 16 - 8

def negated (op : Nat) : Bool := 8 ≤ op % 16

def readInt (high : BitVec 32) (digits : List Byte) : BitVec 32 :=
  digits.foldl (fun num b => num <<< 8 ||| b.setWidth 32) high

def nextDDFToken : List Byte → Option (DDFToken × List Byte)
  | [] => none
  | tbyte :: p =>
    let type := tbyte.toNat / 16
    let low := tbyte.toNat % 16
    if 1 ≤ type ∧ type ≤ 5 then
      if type - 1 ≤ p.length then
        let num := readInt (BitVec.ofNat 32 (low % 8)) (p.take (type - 1))
        some (.int (if 8 ≤ low then -num else num), p.drop (type - 1))
      else none
    else if type = 8 then
      match p.dropWhile (· != 0) with
      | [] => none
      | _ :: rest => some (.string (p.takeWhile (· != 0)), rest)
    else if type = 9 then some (.keyword low, p)
    else if type = 10 then some (.op low, p)
    else none

def tokensUpTo : Nat → List Byte → DDFTokenSeq
  | 0, _ => []
  | count + 1, bytes =>
    match nextDDFToken bytes with
    | none => []
    | some (token, rest) => token :: tokensUpTo count rest

def initTokenSeq (bytes : List Byte) : DDFTokenSeq := tokensUpTo bytes.length bytes

/-- The first byte of the union `tok_Value`: of an integer the most significant one, of a pointer to a
string that of an address in RAM, from 0x40000000 on. -/
def DDFToken.vKeyword : DDFToken → Nat
  | .int v => v.toNat / 2 ^ 24
  | .string _ => 0x40
  | .keyword k => k
  | .op o => o

def skipEntry : DDFTokenSeq → Option DDFTokenSeq
  | [] => none
  | token :: rest =>
    if token.vKeyword = kEndNeed ∨ token.vKeyword = kEndProvide then some rest else skipEntry rest

/-- `ScanForDDFToken`: the tokens behind the name, or `none` for a negative result. Each round takes
at least one token. -/
def scanForDDFTokenUpTo (name : CharPtr) : Nat → DDFTokenSeq → Option DDFTokenSeq
  | 0, _ => none
  | _ + 1, [] => none
  | rounds + 1, token :: rest =>
    match token with
    | .keyword k => if k = kOr then scanForDDFTokenUpTo name rounds rest else none
    | .string s =>
      if s = name then some rest
      else
        match skipEntry rest with
        | none => none
        | some behind => scanForDDFTokenUpTo name rounds behind
    | _ => none

def scanForDDFToken (np : List Byte) (name : CharPtr) : Option DDFTokenSeq :=
  scanForDDFTokenUpTo name (np.length + 1) (initTokenSeq np)

inductive Lookup
  | found (values : DDFTokenSeq)
  | missing
  | aborted

def skipProvide : DDFTokenSeq → Option DDFTokenSeq
  | [] => none
  | .keyword k :: rest => if k = kEndProvide then some rest else none
  | _ :: rest => skipProvide rest

def findProvideUpTo (name : CharPtr) : Nat → DDFTokenSeq → Lookup
  | 0, _ => .aborted
  | _ + 1, [] => .aborted
  | rounds + 1, token :: rest =>
    match token with
    | .keyword k => if k = kEndProvideSection then .missing else .aborted
    | .string s =>
      if s = name then .found rest
      else
        match skipProvide rest with
        | none => .aborted
        | some behind => findProvideUpTo name rounds behind
    | _ => .aborted

def opHolds (op : Nat) (cmp : Int) : Bool :=
  let cmp : Int :=
    if plainOp op = opEq then if cmp = 0 then 1 else 0
    else if plainOp op = opGt then if 0 < cmp then 1 else 0
    else if plainOp op = opLt then if cmp < 0 then 1 else 0
    else cmp
  if negated op = true then cmp == 0 else cmp != 0

def compareTokens (op : Nat) (token want : DDFToken) : Option Bool :=
  match token, want with
  | .string s, .string t => some (opHolds op (strcmp s t))
  -- the difference of two `uint32`, taken as an `int32`
  | .int v, .int w => some (opHolds op (v - w).toInt)
  | _, _ => none

def matchValues (op : Nat) (want : DDFToken) : DDFTokenSeq → Bool
  | [] => false
  | .keyword _ :: _ => false
  | token :: rest => if compareTokens op token want = some true then true else matchValues op want rest

def satisfiesNeedValue (provides : DDFTokenSeq) (name : CharPtr) (op : Nat) (want : Option DDFToken) :
    Bool :=
  match findProvideUpTo name (provides.length + 1) provides with
  | .aborted => false
  | .missing => op = opNot + opDefined
  | .found values =>
    if plainOp op = opDefined then !negated op
    else
      match want with
      | none => false
      | some want => matchValues op want values

def skipNeed : DDFTokenSeq → DDFTokenSeq
  | [] => []
  | .keyword _ :: rest => rest
  | _ :: rest => skipNeed rest

def satisfiesValues (provides : DDFTokenSeq) (name : CharPtr) (op : Nat) :
    DDFTokenSeq → Bool × DDFTokenSeq
  | [] => (false, [])
  | .keyword k :: rest => (k = kEndNeed, rest)
  | .op _ :: rest => (false, rest)
  | value :: rest =>
    if satisfiesNeedValue provides name op (some value) = true then
      satisfiesValues provides name op rest
    else (false, skipNeed rest)

def satisfiesNeed (provides needs : DDFTokenSeq) : Bool × DDFTokenSeq :=
  match needs with
  | .string name :: .op op :: rest =>
    -- for `OP_DEFINED` nothing is read behind the operator
    if plainOp op = opDefined then (satisfiesNeedValue provides name op none, rest)
    else satisfiesValues provides name op rest
  | .string _ :: _ :: rest => (false, rest)
  | _ :: rest => (false, rest)
  | [] => (false, [])

def skipClause : DDFTokenSeq → Option DDFTokenSeq
  | [] => none
  | .keyword k :: rest => if k = kOr then some rest else none
  | _ :: rest => skipClause rest

def ddfSatisfiesUpTo (provides : DDFTokenSeq) : Nat → DDFTokenSeq → Bool
  | 0, _ => false
  | rounds + 1, needs =>
    match needs with
    | [] => false
    | .keyword k :: _ => k = kOr ∨ k = kEndNeedSection
    | .string _ :: _ =>
      match satisfiesNeed provides needs with
      | (true, behind) => ddfSatisfiesUpTo provides rounds behind
      | (false, behind) =>
        match skipClause behind with
        | none => false
        | some clause => ddfSatisfiesUpTo provides rounds clause
    | _ => false

def ddfSatisfies (provides needs : List Byte) : Bool :=
  ddfSatisfiesUpTo (initTokenSeq provides) (needs.length + 1) (initTokenSeq needs)

/-- `MatchDeviceName` for the first part of the full name, which ends at a backslash. -/
def matchDeviceName : CharPtr → CharPtr → Bool
  | [], [] => true
  | _ :: _, [] => false
  | name, c2 :: fullname =>
    if c2 = 92 then name.isEmpty
    else
      match name with
      | [] => false
      | c1 :: name => if toupper c1 = toupper c2 then matchDeviceName name fullname else false

def hwName : CharPtr := [72, 87]

def flagsName : CharPtr := [102, 108, 97, 103, 115]

def ddfCanManage (needs : List Byte) (hw : CharPtr) : Bool :=
  match scanForDDFToken needs hwName with
  | some (.op o :: .string s :: _) =>
    -- `"*"` accepts any hardware resource
    if o = opEq then s == [42] || matchDeviceName s hw else false
  | _ => false

end Portfolio.Kernel
