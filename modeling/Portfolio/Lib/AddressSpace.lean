import Mathlib.Data.BitVec

set_option autoImplicit false

namespace Portfolio.Lib

abbrev Memory := BitVec 32 → BitVec 8

namespace Memory

def word (mem : Memory) (a : BitVec 32) : BitVec 32 := mem a ++ mem (a + 1) ++ mem (a + 2) ++ mem (a + 3)

def copy (mem : Memory) (dst src n : BitVec 32) : Memory :=
  fun a => if a - dst < n then mem (src + (a - dst)) else mem a

variable {mem : Memory} {dst src n o : BitVec 32}

theorem copy_inside (inside : o < n) : mem.copy dst src n (dst + o) = mem (src + o) := by
  have back : dst + o - dst = o := by rw [BitVec.add_comm, BitVec.add_sub_cancel]
  simp only [copy, back, if_pos inside]

theorem word_copy (whole : o.toNat + 4 ≤ n.toNat) :
    (mem.copy dst src n).word (dst + o) = mem.word (src + o) := by
  have inside (i : BitVec 32) (small : i.toNat < 4) :
      mem.copy dst src n (dst + o + i) = mem (src + o + i) := by
    rw [BitVec.add_assoc, BitVec.add_assoc, copy_inside]
    rw [BitVec.lt_def, BitVec.toNat_add, Nat.mod_eq_of_lt (by omega)]
    omega
  have first := inside 0 (by decide)
  simp only [BitVec.ofNat_eq_ofNat, BitVec.add_zero] at first
  simp only [word, first, inside 1 (by decide), inside 2 (by decide), inside 3 (by decide)]

end Memory

end Portfolio.Lib
