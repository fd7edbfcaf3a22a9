import Portfolio.Lib.Bytes
import Mathlib.Data.List.TakeWhile
import Mathlib.Algebra.Order.Ring.Nat

set_option autoImplicit false

namespace Portfolio.Stdio

open Portfolio.Lib

def char (c : Char) : Byte := BitVec.ofNat 8 c.toNat

def INT_MAX : Nat := 2 ^ 31 - 1

abbrev Mask := Fin 32 → Byte

namespace Mask

def index (c : Byte) : Fin 32 := ⟨c.toNat / 8, by omega⟩

def bit (c : Byte) : Byte := 1#8 <<< (c.toNat % 8)

def mark (flip : Bool) (c : Byte) (mask : Mask) : Mask :=
  Function.update mask (index c) (if flip then mask (index c) &&& ~~~bit c else mask (index c) ||| bit c)

def has (mask : Mask) (c : Byte) : Bool := mask (index c) &&& bit c != 0

def markRange (flip : Bool) (last : Byte) : Nat → Byte → Mask → Option Mask
  | 0, _, _ => none
  | fuel + 1, i, mask =>
    if i ≤ last then markRange flip last fuel (i + 1) (mask.mark flip i) else some mask

end Mask

def rangeEnd : List Byte → Option (Byte × List Byte)
  | dash :: last :: fmt => if dash = char '-' ∧ last ≠ char ']' then some (last, fmt) else none
  | _ => none

def compile (flip : Bool) : Nat → List Byte → Mask → Option (Mask × List Byte)
  | 0, _, _ => none
  | _ + 1, [], mask => some (mask, [])
  | fuel + 1, start :: fmt, mask =>
    let marked :=
      match rangeEnd fmt with
      | some (last, fmt) => (Mask.markRange flip last fuel start (mask.mark flip start)).map (·, fmt)
      | none => some (mask.mark flip start, fmt)
    marked.bind fun (mask, fmt) =>
      if fmt.head? = some (char ']') then some (mask, fmt) else compile flip fuel fmt mask

def readSet (mask : Mask) : Nat → List Byte → Option Nat → ByteMem → List Byte × ByteMem
  | fieldWidth + 1, ch :: input, ptr, mem =>
    if mask.has ch then
      readSet mask fieldWidth input (ptr.map (· + 1)) (ptr.elim mem fun p => Function.update mem p ch)
    else (ch :: input, mem)
  -- the end of the input, or of the field
  | _, input, _, mem => (input, mem)

structure Scan where
  fmt : List Byte
  input : List Byte
  mem : ByteMem
  args : Nat

def flips (fmt : List Byte) : Bool := fmt.head? = some (char '^')

def body (fmt : List Byte) : List Byte := if flips fmt then fmt.tail else fmt

/-- The case of `'['`, from the format behind the bracket on. `ptr` is `none` for `%*[`. -/
def scanset (fuel : Nat) (fieldWidth : Int) (ptr : Option Nat) (s : Scan) : Option Scan :=
  let flip := flips s.fmt
  -- `memset` puts 1 into every byte of the mask, not `~0`
  (compile flip fuel (body s.fmt) fun _ => if flip then 1 else 0).map fun (mask, fmt) =>
    let fieldWidth := if fieldWidth < 0 then INT_MAX else fieldWidth.toNat
    -- no NUL goes behind what is stored
    let read := readSet mask fieldWidth s.input ptr s.mem
    ⟨fmt.tail, read.1, read.2, if ptr.isSome then s.args + 1 else s.args⟩

inductive ScanItem where
  | one (c : Byte)
  | range (first last : Byte)

def ScanItem.has (d : Byte) : ScanItem → Bool
  | .one c => d = c
  | .range first last => d = first ∨ first ≤ d ∧ d ≤ last

def ScanItem.Below : ScanItem → Prop
  | .one _ => True
  | .range _ last => last ≠ 255

def scanItem (start : Byte) (fmt : List Byte) : ScanItem × List Byte :=
  match rangeEnd fmt with
  | some (last, after) => (.range start last, after)
  | none => (.one start, fmt)

theorem scanItem_length (start : Byte) (fmt : List Byte) : (scanItem start fmt).2.length ≤ fmt.length := by
  unfold scanItem rangeEnd
  split
  · next last after range =>
    split at range
    · obtain ⟨-, same⟩ := Option.ite_none_right_eq_some.mp range
      obtain ⟨-, rfl⟩ := Prod.mk.inj (Option.some.inj same)
      simp
      omega
    · cases range
  · exact le_rfl

/-- The characters and the ranges up to the closing bracket, and the format from there on. The
first character never closes the set. -/
def scanItems : List Byte → List ScanItem × List Byte
  | [] => ([], [])
  | start :: fmt =>
    let item := scanItem start fmt
    if item.2.head? = some (char ']') then ([item.1], item.2)
    else (item.1 :: (scanItems item.2).1, (scanItems item.2).2)
termination_by fmt => fmt.length
decreasing_by all_goals exact Nat.lt_succ_of_le (scanItem_length start fmt)

def denoted (fmt : List Byte) (c : Byte) : Bool := (scanItems (body fmt)).1.any (·.has c) != flips fmt

def wanted (fieldWidth : Int) (s : Scan) : List Byte :=
  let accepted := s.input.takeWhile (denoted s.fmt)
  if fieldWidth < 0 then accepted else accepted.take fieldWidth.toNat

structure ScannedRight (fieldWidth : Int) (ptr : Option Nat) (s s' : Scan) : Prop where
  unread : s'.input = s.input.drop (wanted fieldWidth s).length
  stored : ∀ p, ptr = some p →
    s'.mem.load p ((wanted fieldWidth s).length + 1) = wanted fieldWidth s ++ [0] ∧
      ∀ i, i < p ∨ p + (wanted fieldWidth s).length < i → s'.mem i = s.mem i
  suppressed : ptr = none → s'.mem = s.mem
  format : s'.fmt = (scanItems (body s.fmt)).2.tail

structure ScanClear (fieldWidth : Int) (ptr : Option Nat) (s : Scan) : Prop where
  below : ∀ item ∈ (scanItems (body s.fmt)).1, item.Below
  everyEighth : flips s.fmt = true → ∀ c ∈ wanted fieldWidth s, c.toNat % 8 = 0
  counted : fieldWidth < 0 → (wanted fieldWidth s).length ≤ INT_MAX
  terminated : ∀ p, ptr = some p → s.mem (p + (wanted fieldWidth s).length) = 0

namespace Mask

variable {flip : Bool} {mask mask' : Mask} {c d first last : Byte} {fuel : Nat}

theorem has_eq (mask : Mask) (c : Byte) : mask.has c = (mask (index c)).getLsbD (c.toNat % 8) := by
  have one : bit c = BitVec.twoPow 8 (c.toNat % 8) := rfl
  rw [has, one, BitVec.and_twoPow]
  cases set : (mask (index c)).getLsbD (c.toNat % 8)
  · rfl
  · have inByte : (BitVec.twoPow 8 (c.toNat % 8)).getLsbD (c.toNat % 8) = true := by
      rw [BitVec.getLsbD_twoPow]
      simp
      omega
    have nonzero : BitVec.twoPow 8 (c.toNat % 8) ≠ 0 := by
      intro zero
      rw [zero] at inByte
      simp at inByte
    simpa using nonzero

theorem has_mark : (mask.mark flip c).has d = if d = c then !flip else mask.has d := by
  have one : bit c = BitVec.twoPow 8 (c.toNat % 8) := rfl
  have inByte : ∀ e : Byte, e.toNat % 8 < 8 := fun e => Nat.mod_lt _ (by decide)
  rw [has_eq, has_eq, mark, one]
  by_cases here : index d = index c
  · rw [here, Function.update_self]
    have bits : d = c ↔ d.toNat % 8 = c.toNat % 8 := by
      have words : d.toNat / 8 = c.toNat / 8 := congrArg Fin.val here
      rw [BitVec.toNat_inj.symm]
      omega
    simp only [bits]
    cases flip <;> by_cases same : d.toNat % 8 = c.toNat % 8 <;> simp [same, inByte]
  · rw [Function.update_of_ne here, if_neg (fun same => here (congrArg index same))]

theorem markRange_some (marked : markRange flip last fuel c mask = some mask') :
    last ≠ 255 ∧ ∀ d, mask'.has d = if c ≤ d ∧ d ≤ last then !flip else mask.has d := by
  induction fuel generalizing c mask with
  | zero => cases marked
  | succ fuel ih =>
    rw [markRange] at marked
    by_cases inside : c ≤ last
    · rw [if_pos inside] at marked
      obtain ⟨notLast, has⟩ := ih marked
      refine ⟨notLast, fun d => ?_⟩
      rw [has, has_mark]
      -- `last` is not 255, so `c + 1` does not wrap
      have next : (c + 1 ≤ d ∧ d ≤ last ∨ d = c) ↔ c ≤ d ∧ d ≤ last := by
        bv_omega
      by_cases here : d = c <;> grind
    · rw [if_neg inside] at marked
      obtain rfl := Option.some.inj marked
      refine ⟨by bv_omega, fun d => ?_⟩
      rw [if_neg (by bv_omega)]

theorem markRange_ends (notLast : last ≠ 255) (enough : last.toNat + 1 - c.toNat < fuel) :
    ∃ mask', markRange flip last fuel c mask = some mask' := by
  induction fuel generalizing c mask with
  | zero => omega
  | succ fuel ih =>
    rw [markRange]
    by_cases inside : c ≤ last
    · rw [if_pos inside]
      exact ih (by bv_omega)
    · exact ⟨mask, if_neg inside⟩

end Mask

section Compile

variable {flip : Bool} {mask mask' : Mask} {start d : Byte} {fmt rest : List Byte} {fuel : Nat}

def ScanItem.mark (flip : Bool) (fuel : Nat) (mask : Mask) : ScanItem → Option Mask
  | .one c => some (mask.mark flip c)
  | .range first last => Mask.markRange flip last fuel first (mask.mark flip first)

theorem ScanItem.mark_some {item : ScanItem} (marked : item.mark flip fuel mask = some mask') :
    item.Below ∧ ∀ d, mask'.has d = if item.has d then !flip else mask.has d := by
  cases item with
  | one c =>
    obtain rfl := Option.some.inj marked
    refine ⟨trivial, fun d => ?_⟩
    simp only [Mask.has_mark, ScanItem.has, decide_eq_true_eq]
  | range first last =>
    obtain ⟨notLast, has⟩ := Mask.markRange_some marked
    refine ⟨notLast, fun d => ?_⟩
    simp only [has, Mask.has_mark, ScanItem.has, decide_eq_true_eq]
    by_cases here : d = first <;> simp [here]

theorem ScanItem.mark_ends {item : ScanItem} (below : item.Below) (enough : 257 ≤ fuel) :
    ∃ mask', item.mark flip fuel mask = some mask' := by
  cases item with
  | one c => exact ⟨_, rfl⟩
  | range first last => exact Mask.markRange_ends below (by omega)

theorem compile_cons : compile flip (fuel + 1) (start :: fmt) mask =
    ((scanItem start fmt).1.mark flip fuel mask).bind fun mask =>
      if (scanItem start fmt).2.head? = some (char ']') then some (mask, (scanItem start fmt).2)
      else compile flip fuel (scanItem start fmt).2 mask := by
  rw [compile]
  unfold scanItem
  cases rangeEnd fmt with
  | none => rfl
  | some range =>
    simp only [ScanItem.mark]
    cases Mask.markRange flip range.1 fuel start (mask.mark flip start) <;> rfl

theorem compile_some (compiled : compile flip fuel fmt mask = some (mask', rest)) :
    (∀ item ∈ (scanItems fmt).1, item.Below) ∧ rest = (scanItems fmt).2 ∧
      ∀ d, mask'.has d = if (scanItems fmt).1.any (·.has d) then !flip else mask.has d := by
  induction fuel generalizing fmt mask with
  | zero => cases compiled
  | succ fuel ih =>
    cases fmt with
    | nil =>
      obtain ⟨rfl, rfl⟩ := Prod.mk.inj (Option.some.inj compiled)
      simp [scanItems]
    | cons start fmt =>
      rw [compile_cons] at compiled
      obtain ⟨marked, markedBy, compiled⟩ := Option.bind_eq_some_iff.mp compiled
      obtain ⟨below, has⟩ := ScanItem.mark_some markedBy
      rw [scanItems]
      by_cases closed : (scanItem start fmt).2.head? = some (char ']')
      · rw [if_pos closed] at compiled
        obtain ⟨rfl, rfl⟩ := Prod.mk.inj (Option.some.inj compiled)
        simp [closed, below, has]
      · rw [if_neg closed] at compiled
        obtain ⟨belowRest, rfl, hasRest⟩ := ih compiled
        refine ⟨?_, ?_, fun d => ?_⟩
        · simpa [closed] using ⟨below, belowRest⟩
        · simp [closed]
        · rw [hasRest, has]
          cases here : (scanItem start fmt).1.has d <;> simp [closed, here]

theorem compile_ends (below : ∀ item ∈ (scanItems fmt).1, item.Below) (enough : fmt.length + 258 ≤ fuel) :
    ∃ result, compile flip fuel fmt mask = some result := by
  induction fuel generalizing fmt mask with
  | zero => omega
  | succ fuel ih =>
    cases fmt with
    | nil => exact ⟨_, rfl⟩
    | cons start fmt =>
      have shorter := scanItem_length start fmt
      rw [scanItems] at below
      rw [compile_cons]
      simp only [List.length_cons] at enough
      by_cases closed : (scanItem start fmt).2.head? = some (char ']')
      · simp only [closed, if_true, List.mem_singleton, forall_eq] at below
        obtain ⟨marked, markedBy⟩ := ScanItem.mark_ends below (show 257 ≤ fuel by omega)
        exact ⟨_, by rw [markedBy, Option.bind_some, if_pos closed]⟩
      · simp only [closed, if_false, List.forall_mem_cons] at below
        obtain ⟨marked, markedBy⟩ := ScanItem.mark_ends below.1 (show 257 ≤ fuel by omega)
        rw [markedBy, Option.bind_some, if_neg closed]
        exact ih below.2 (by omega)

end Compile

section Read

variable {mask : Mask} {mem : ByteMem}

theorem store_cons (p : Nat) (b : Byte) (bytes : List Byte) :
    ByteMem.store (Function.update mem p b) (p + 1) bytes = mem.store p (b :: bytes) := by
  funext i
  unfold ByteMem.store
  rcases Nat.lt_trichotomy i p with before | rfl | behind
  · rw [if_neg (by omega), if_neg (by omega), Function.update_of_ne (by omega)]
  · rw [if_neg (by omega), if_pos le_rfl, Function.update_self, Nat.sub_self]
    rfl
  · rw [if_pos (by omega), if_pos (by omega), Function.update_of_ne (by omega),
      show i - p = i - (p + 1) + 1 by omega, List.getElem?_cons_succ]

theorem readSet_eq (fieldWidth : Nat) (input : List Byte) (ptr : Option Nat) :
    readSet mask fieldWidth input ptr mem =
      (input.drop ((input.take fieldWidth).takeWhile mask.has).length,
        ptr.elim mem fun p => mem.store p ((input.take fieldWidth).takeWhile mask.has)) := by
  have nothing : ∀ mem : ByteMem, (ptr.elim mem fun p => mem.store p []) = mem := by
    intro mem
    cases ptr with
    | none => rfl
    | some p =>
      funext i
      simp [ByteMem.store]
  induction input generalizing fieldWidth ptr mem with
  | nil => cases fieldWidth <;> simp [readSet, nothing]
  | cons ch input ih =>
    cases fieldWidth with
    | zero => simp [readSet, nothing]
    | succ fieldWidth =>
      rw [readSet, List.take_succ_cons]
      cases accepted : mask.has ch
      · simp [accepted, nothing]
      · rw [if_pos rfl, List.takeWhile_cons_of_pos accepted]
        cases ptr with
        | none => exact ih fieldWidth none fun _ => rfl
        | some p =>
          rw [ih]
          · simp [store_cons]
          · intro mem
            funext i
            simp [ByteMem.store]

end Read

variable {fieldWidth : Int} {ptr : Option Nat} {s s' : Scan}

def fewer (fieldWidth : Int) : Nat := if fieldWidth < 0 then INT_MAX else fieldWidth.toNat

/-- What the mask accepts of the set: for `^`, of every eight characters one. -/
def kept (fmt : List Byte) (c : Byte) : Bool := !flips fmt || c.toNat % 8 == 0

def consumed (fieldWidth : Int) (s : Scan) : List Byte :=
  ((wanted fieldWidth s).takeWhile (kept s.fmt)).take (fewer fieldWidth)

theorem consumed_eq_iff : consumed fieldWidth s = wanted fieldWidth s ↔
    (∀ c ∈ wanted fieldWidth s, kept s.fmt c = true) ∧
      (fieldWidth < 0 → (wanted fieldWidth s).length ≤ INT_MAX) := by
  have limited : (wanted fieldWidth s).length ≤ fewer fieldWidth ↔
      (fieldWidth < 0 → (wanted fieldWidth s).length ≤ INT_MAX) := by
    unfold wanted fewer
    by_cases absent : fieldWidth < 0
    · simp [absent]
    · simp [absent]
  rw [← limited, consumed, ← List.takeWhile_eq_self_iff]
  constructor
  · intro whole
    have short := (List.takeWhile_prefix (kept s.fmt) (l := wanted fieldWidth s)).length_le
    have same := congrArg List.length whole
    rw [List.length_take] at same
    refine ⟨(List.takeWhile_prefix _).eq_of_length (by omega), by omega⟩
  · rintro ⟨whole, few⟩
    rw [whole, List.take_of_length_le few]

theorem mask_accepts {mask : Mask}
    (has : ∀ d, mask.has d = if (scanItems (body s.fmt)).1.any (·.has d) then !flips s.fmt
      else (Mask.has (fun _ => if flips s.fmt then 1 else 0) d)) (d : Byte) :
    mask.has d = (kept s.fmt d && denoted s.fmt d) := by
  have start : (Mask.has (fun _ => if flips s.fmt then 1 else 0) d) = (flips s.fmt && d.toNat % 8 == 0) := by
    rw [Mask.has_eq]
    cases flips s.fmt
    · simp
    · have inByte : d.toNat % 8 < 8 := Nat.mod_lt _ (by decide)
      generalize d.toNat % 8 = b at inByte
      exact (by decide : ∀ b < 8, (1 : Byte).getLsbD b = (true && b == 0)) b inByte
  rw [has, start, denoted, kept]
  cases (scanItems (body s.fmt)).1.any (·.has d) <;> cases flips s.fmt <;> simp

theorem scanset_some {fuel : Nat} (scanned : scanset fuel fieldWidth ptr s = some s') :
    (∀ item ∈ (scanItems (body s.fmt)).1, item.Below) ∧
      s'.fmt = (scanItems (body s.fmt)).2.tail ∧
      s'.input = s.input.drop (consumed fieldWidth s).length ∧
      s'.mem = ptr.elim s.mem fun p => s.mem.store p (consumed fieldWidth s) := by
  obtain ⟨⟨mask, fmt⟩, compiled, rfl⟩ := Option.map_eq_some_iff.mp scanned
  obtain ⟨below, rfl, has⟩ := compile_some compiled
  have accepts : mask.has = fun d => decide (kept s.fmt d = true ∧ denoted s.fmt d = true) :=
    funext fun d => by rw [mask_accepts has, Bool.decide_and, Bool.decide_eq_true, Bool.decide_eq_true]
  have read : (s.input.take (fewer fieldWidth)).takeWhile mask.has = consumed fieldWidth s := by
    rw [accepts, ← List.take_takeWhile, ← List.takeWhile_takeWhile, consumed, wanted, fewer]
    by_cases absent : fieldWidth < 0
    · simp only [if_pos absent]
    · simp only [if_neg absent, ← List.take_takeWhile, List.take_take, Nat.min_self]
  refine ⟨below, rfl, ?_, ?_⟩
  all_goals
    simp only [readSet_eq]
    rw [← read]
    rfl

theorem wanted_isPrefix (fieldWidth : Int) (s : Scan) : wanted fieldWidth s <+: s.input := by
  unfold wanted
  split
  · exact List.takeWhile_prefix _
  · exact (List.take_prefix _ _).trans (List.takeWhile_prefix _)

theorem consumed_isPrefix (fieldWidth : Int) (s : Scan) : consumed fieldWidth s <+: wanted fieldWidth s :=
  (List.take_prefix _ _).trans (List.takeWhile_prefix _)

theorem scanset_ends (fieldWidth : Int) (ptr : Option Nat)
    (below : ∀ item ∈ (scanItems (body s.fmt)).1, item.Below) :
    ∃ fuel s', scanset fuel fieldWidth ptr s = some s' := by
  obtain ⟨result, compiled⟩ := compile_ends below le_rfl
  exact ⟨_, _, Option.map_eq_some_iff.mpr ⟨result, compiled, rfl⟩⟩

theorem scanset_right_iff (fieldWidth : Int) (ptr : Option Nat) (s : Scan) :
    (∃ fuel s', scanset fuel fieldWidth ptr s = some s' ∧ ScannedRight fieldWidth ptr s s') ↔
      ScanClear fieldWidth ptr s := by
  constructor
  · rintro ⟨fuel, s', scanned, right⟩
    obtain ⟨below, -, input, mem⟩ := scanset_some scanned
    have lengths : (consumed fieldWidth s).length = (wanted fieldWidth s).length := by
      have short := (consumed_isPrefix fieldWidth s).length_le
      have inside := (wanted_isPrefix fieldWidth s).length_le
      have same := congrArg List.length (input.symm.trans right.unread)
      simp only [List.length_drop] at same
      omega
    have whole := (consumed_isPrefix fieldWidth s).eq_of_length lengths
    obtain ⟨kept, counted⟩ := consumed_eq_iff.mp whole
    refine ⟨below, fun flip c member => ?_, counted, ?_⟩
    · simpa [Stdio.kept, flip] using kept c member
    · rintro p rfl
      -- the last byte that is loaded is the one that should have become the NUL
      have behind := congrArg (·.getLast?) (right.stored p rfl).1
      rw [mem, Option.elim_some, whole] at behind
      simpa [ByteMem.load, List.range'_concat, ByteMem.store_behind] using behind
  · intro clear
    obtain ⟨fuel, s', scanned⟩ := scanset_ends fieldWidth ptr clear.below
    obtain ⟨-, format, input, mem⟩ := scanset_some scanned
    have whole : consumed fieldWidth s = wanted fieldWidth s := by
      refine consumed_eq_iff.mpr ⟨fun c member => ?_, clear.counted⟩
      cases flip : flips s.fmt
      · simp [kept, flip]
      · simp [kept, clear.everyEighth flip c member]
    rw [whole] at input mem
    refine ⟨fuel, s', scanned, input, ?_, ?_, format⟩
    · rintro p rfl
      have last := clear.terminated p rfl
      rw [mem, Option.elim_some]
      refine ⟨?_, fun i outside => ?_⟩
      · have self := ByteMem.load_store_self s.mem p (wanted fieldWidth s)
        unfold ByteMem.load at self ⊢
        rw [List.range'_concat, List.map_append, self, List.map_singleton, Nat.one_mul,
          ByteMem.store_behind _ _ _ le_rfl, last]
      · rcases outside with before | behind
        · exact ByteMem.store_before _ _ _ before
        · exact ByteMem.store_behind _ _ _ behind.le
    · rintro rfl
      exact mem

def complementScan : Scan := ⟨[char '^', char 'x', char ']'], [char 'a'], fun _ => 0, 0⟩

theorem scanset_complement_short :
    ¬ ∃ fuel s', scanset fuel (-1) (some 0) complementScan = some s' ∧
      ScannedRight (-1) (some 0) complementScan s' := by
  rintro ⟨fuel, s', scanned, right⟩
  obtain ⟨-, -, input, -⟩ := scanset_some scanned
  have asked : wanted (-1) complementScan = [char 'a'] := by
    simp [wanted, complementScan, denoted, body, flips, scanItems, scanItem, rangeEnd, ScanItem.has, char]
  have nothing : consumed (-1) complementScan = [] := by
    rw [consumed, asked]
    rfl
  have left := input.symm.trans right.unread
  rw [nothing, asked] at left
  cases left

end Portfolio.Stdio
