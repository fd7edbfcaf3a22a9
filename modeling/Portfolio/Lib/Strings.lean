import Portfolio.Lib.Bytes

set_option autoImplicit false

namespace Portfolio.Lib

abbrev CharPtr := List Byte

def strcmp : CharPtr → CharPtr → Int
  | [], [] => 0
  | a :: _, [] => a.toNat
  | [], b :: _ => -b.toNat
  | a :: as, b :: bs => if a = b then strcmp as bs else (a.toNat : Int) - b.toNat

def toupper (c : Byte) : Byte := if 97 ≤ c.toNat ∧ c.toNat ≤ 122 then c - 32 else c

def sameName (a b : CharPtr) : Bool := a.map toupper == b.map toupper

theorem sameName_iff (a b : CharPtr) : sameName a b = true ↔ a.map toupper = b.map toupper := beq_iff_eq

theorem sameName_refl (a : CharPtr) : sameName a a = true := (sameName_iff a a).mpr rfl

theorem sameName_symm {a b : CharPtr} (same : sameName a b = true) : sameName b a = true :=
  (sameName_iff b a).mpr ((sameName_iff a b).mp same).symm

theorem sameName_trans {a b c : CharPtr} (first : sameName a b = true) (second : sameName b c = true) :
    sameName a c = true :=
  (sameName_iff a c).mpr (((sameName_iff a b).mp first).trans ((sameName_iff b c).mp second))

end Portfolio.Lib
