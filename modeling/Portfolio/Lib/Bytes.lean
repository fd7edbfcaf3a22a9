import Mathlib.Data.List.Basic
import Mathlib.Algebra.Ring.Nat

set_option autoImplicit false

namespace Portfolio.Lib

abbrev Byte := BitVec 8

abbrev ByteMem := Nat → Byte

namespace ByteMem

def store (m : ByteMem) (start : Nat) (bytes : List Byte) : ByteMem :=
  fun i => if start ≤ i then bytes[i - start]?.getD (m i) else m i

def load (m : ByteMem) (start n : Nat) : List Byte := (List.range' start n).map m

variable (m : ByteMem)

@[simp] theorem length_load (start n : Nat) : (m.load start n).length = n := by simp [load]

theorem load_congr {m m' : ByteMem} {start n : Nat}
    (same : ∀ i, start ≤ i → i < start + n → m' i = m i) : m'.load start n = m.load start n := by
  refine List.map_congr_left fun i member => ?_
  have bounds := List.mem_range'_1.mp member
  exact same i bounds.1 bounds.2

theorem store_before (start : Nat) (bytes : List Byte) {i : Nat} (before : i < start) :
    m.store start bytes i = m i := if_neg (Nat.not_le.mpr before)

theorem store_behind (start : Nat) (bytes : List Byte) {i : Nat} (behind : start + bytes.length ≤ i) :
    m.store start bytes i = m i := by
  rw [store, if_pos (by omega), List.getElem?_eq_none (by omega), Option.getD_none]

theorem load_store_self (start : Nat) (bytes : List Byte) :
    (m.store start bytes).load start bytes.length = bytes := by
  apply List.ext_getElem (by simp)
  intro i inLoad inBytes
  simp [load, store, inBytes]

theorem load_store_before {start n from' : Nat} (bytes : List Byte) (before : from' + n ≤ start) :
    (m.store start bytes).load from' n = m.load from' n :=
  load_congr fun _ _ below => m.store_before start bytes (by omega)

theorem load_take (start : Nat) {n k : Nat} (le : k ≤ n) : m.load start k = (m.load start n).take k := by
  rw [load, load, ← List.map_take, List.take_range'_of_length_ge le]

theorem load_drop {start n k : Nat} : m.load (start + k) (n - k) = (m.load start n).drop k := by
  rw [load, load, ← List.map_drop, List.drop_range']
  simp

end ByteMem

def toBytes : Nat → Nat → List Byte
  | 0, _ => []
  | n + 1, value => BitVec.ofNat 8 (value / 256 ^ n) :: toBytes n value

def ofBytes : List Byte → Nat
  | [] => 0
  | b :: rest => b.toNat * 256 ^ rest.length + ofBytes rest

@[simp] theorem length_toBytes (n value : Nat) : (toBytes n value).length = n := by
  induction n with
  | zero => rfl
  | succ n ih => simp [toBytes, ih]

theorem ofBytes_toBytes (n value : Nat) : ofBytes (toBytes n value) = value % 256 ^ n := by
  induction n with
  | zero => simp [toBytes, ofBytes, Nat.mod_one]
  | succ n ih =>
    have split : value % 256 ^ (n + 1) = value % 256 ^ n + 256 ^ n * (value / 256 ^ n % 256) :=
      Nat.mod_mul
    have first : (BitVec.ofNat 8 (value / 256 ^ n)).toNat = value / 256 ^ n % 256 := rfl
    rw [toBytes, ofBytes, ih, length_toBytes, first, split, Nat.mul_comm, Nat.add_comm]

theorem ofBytes_toBytes_of_lt {n value : Nat} (small : value < 256 ^ n) :
    ofBytes (toBytes n value) = value := by
  rw [ofBytes_toBytes, Nat.mod_eq_of_lt small]

end Portfolio.Lib
