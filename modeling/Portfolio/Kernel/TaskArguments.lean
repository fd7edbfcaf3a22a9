import Portfolio.Lib.Strings
import Portfolio.Lib.Word
import Mathlib.Data.List.TakeWhile
import Mathlib.Order.Nat

set_option autoImplicit false

namespace Portfolio.Kernel.TaskArguments

open Portfolio.Lib

def nul : Byte := 0
def space : Byte := 32
def quote : Byte := 34

def skipWhile (mem : ByteMem) (more : Byte → Bool) : Nat → Nat → Option Nat
  | 0, _ => none
  | rounds + 1, p => if more (mem p) then skipWhile mem more rounds (p + 1) else some p

def strlen (mem : ByteMem) (rounds s : Nat) : Option Nat :=
  (skipWhile mem (· != nul) rounds s).map (· - s)

structure ArgvScan where
  mem : ByteMem
  cmdline : Nat
  argc : Nat
  stored : List Nat

namespace ArgvScan

def store (s : ArgvScan) (start : Nat) (bytes : List Byte) : ArgvScan :=
  { s with mem := s.mem.store start bytes, stored := s.stored ++ List.range' start bytes.length }

def setArgv (s : ArgvScan) (argv : Option Nat) (value : Nat) : ArgvScan :=
  match argv with
  | some argv => s.store (argv + 4 * s.argc) (toBytes 4 value)
  | none => s

end ArgvScan

def inArgument (terminator c : Byte) : Bool := c != terminator && c != nul

def buildArgv (argv : Option Nat) : Nat → ArgvScan → Option ArgvScan
  | 0, _ => none
  | rounds + 1, s =>
    -- skip leading spaces
    (skipWhile s.mem (· == space) (rounds + 1) s.cmdline).bind fun cmdline =>
    let s := { s with cmdline }
    if s.mem s.cmdline = nul then some (s.setArgv argv 0)
    else
      let terminator := if s.mem s.cmdline = quote then quote else space
      let s := if s.mem s.cmdline = quote then { s with cmdline := s.cmdline + 1 } else s
      -- store pointer to the argument
      let s := s.setArgv argv s.cmdline
      let s := { s with argc := s.argc + 1 }
      -- skip to the end of the argument
      (skipWhile s.mem (inArgument terminator) (rounds + 1) s.cmdline).bind fun cmdline =>
      let s := { s with cmdline }
      if s.mem s.cmdline = terminator ∧ argv.isSome then
        -- null-terminate the argument
        buildArgv argv rounds { s.store s.cmdline [nul] with cmdline := s.cmdline + 1 }
      else buildArgv argv rounds s

def STACK_ALIGNMENT : BitVec 32 := 8

def roundedSize (length : Nat) : BitVec 32 :=
  (BitVec.ofNat 32 length + 1 + (STACK_ALIGNMENT - 1)) &&& ~~~(STACK_ALIGNMENT - 1)

def countArguments (mem : ByteMem) (rounds cmdline : Nat) : Option Nat :=
  (buildArgv none rounds { mem, cmdline, argc := 0, stored := [] }).map (·.argc)

def sizeArguments (mem : ByteMem) (rounds cmdline : Nat) : Option (BitVec 32) := do
  let argc ← countArguments mem rounds cmdline
  let length ← strlen mem rounds cmdline
  let size := roundedSize length + (BitVec.ofNat 32 argc + 1) * 4
  return (size + STACK_ALIGNMENT - 1) &&& ~~~(STACK_ALIGNMENT - 1)

def buildArguments (mem : ByteMem) (rounds cmdline buf : Nat) : Option ArgvScan := do
  -- copy the command string
  let length ← strlen mem rounds cmdline
  let s : ArgvScan := { mem, cmdline := buf, argc := 0, stored := [] }
  let s := s.store buf (mem.load cmdline (length + 1))
  -- build the argv array after the command string
  let length ← strlen s.mem rounds buf
  buildArgv (some (buf + (roundedSize length).toNat)) rounds s

def PassesAgree (mem : ByteMem) (rounds cmdline buf : Nat) : Prop :=
  ∃ argc size built, countArguments mem rounds cmdline = some argc ∧
    sizeArguments mem rounds cmdline = some size ∧ buildArguments mem rounds cmdline buf = some built ∧
    argc = built.argc ∧ ∀ address ∈ built.stored, buf ≤ address ∧ address < buf + size.toNat

inductive Argument where
  | quoted (word : List Byte)
  | unclosed (word : List Byte)
  | plain (word : List Byte)

namespace Argument

def isPlain : Argument → Bool
  | plain _ => true
  | _ => false

def quotes : Argument → Nat
  | quoted _ => 2
  | unclosed _ => 1
  | plain word => word.count quote

end Argument

theorem length_dropWhile_le (p : Byte → Bool) (cs : List Byte) : (cs.dropWhile p).length ≤ cs.length :=
  (List.dropWhile_sublist p).length_le

theorem length_rest {p : Byte → Bool} {cs rest : List Byte} {c : Byte} (dropped : cs.dropWhile p = c :: rest) :
    rest.length < cs.length := by
  have le := length_dropWhile_le p cs
  rw [dropped, List.length_cons] at le
  exact le

set_option linter.unusedVariables false in
def arguments (cs : List Byte) : List Argument :=
  match dropped : cs.dropWhile (· == space) with
  | [] => []
  | c :: rest =>
    if c = quote then
      match closing : rest.dropWhile (· != quote) with
      | [] => [.unclosed (rest.takeWhile (· != quote))]
      | _ :: rest' => .quoted (rest.takeWhile (· != quote)) :: arguments rest'
    else .plain (c :: rest.takeWhile (· != space)) :: arguments (rest.dropWhile (· != space))
termination_by cs.length
decreasing_by
  · exact (length_rest closing).trans (length_rest dropped)
  · exact (length_dropWhile_le _ _).trans_lt (length_rest dropped)

set_option linter.unusedVariables false in
def countedArguments (cs : List Byte) : Nat :=
  match dropped : cs.dropWhile (· == space) with
  | [] => 0
  | c :: rest => countedArguments (rest.dropWhile (· != if c = quote then quote else space)) + 1
termination_by cs.length
decreasing_by exact (length_dropWhile_le _ _).trans_lt (length_rest dropped)

def Balanced (cs : List Byte) : Prop :=
  let later := (arguments cs).dropWhile Argument.isPlain
  (later.map Argument.quotes).sum = later.length

def Fits (cs : List Byte) : Prop :=
  (cs.length + 8) / 8 * 8 + ((arguments cs).length + 1) * 4 ≤ 2 ^ 32 - 8

variable {cs rest rest' : List Byte} {c : Byte}

theorem arguments_nil (dropped : cs.dropWhile (· == space) = []) : arguments cs = [] := by
  rw [arguments]
  split
  · rfl
  · next eq => exact absurd (dropped.symm.trans eq) (List.cons_ne_nil _ _).symm

theorem arguments_quoted {q : Byte} (dropped : cs.dropWhile (· == space) = quote :: rest)
    (closing : rest.dropWhile (· != quote) = q :: rest') :
    arguments cs = .quoted (rest.takeWhile (· != quote)) :: arguments rest' := by
  rw [arguments]
  split
  · next eq => exact absurd (dropped.symm.trans eq) (List.cons_ne_nil _ _)
  · next eq =>
    obtain ⟨rfl, rfl⟩ := List.cons.inj (eq.symm.trans dropped)
    rw [if_pos rfl]
    split
    · next eq' => exact absurd (closing.symm.trans eq') (List.cons_ne_nil _ _)
    · next eq' =>
      obtain ⟨-, rfl⟩ := List.cons.inj (eq'.symm.trans closing)
      rfl

theorem arguments_unclosed (dropped : cs.dropWhile (· == space) = quote :: rest)
    (closing : rest.dropWhile (· != quote) = []) :
    arguments cs = [.unclosed (rest.takeWhile (· != quote))] := by
  rw [arguments]
  split
  · next eq => exact absurd (dropped.symm.trans eq) (List.cons_ne_nil _ _)
  · next eq =>
    obtain ⟨rfl, rfl⟩ := List.cons.inj (eq.symm.trans dropped)
    rw [if_pos rfl]
    split
    · rfl
    · next eq' => exact absurd (closing.symm.trans eq') (List.cons_ne_nil _ _).symm

theorem arguments_plain (dropped : cs.dropWhile (· == space) = c :: rest) (other : c ≠ quote) :
    arguments cs =
      .plain (c :: rest.takeWhile (· != space)) :: arguments (rest.dropWhile (· != space)) := by
  rw [arguments]
  split
  · next eq => exact absurd (dropped.symm.trans eq) (List.cons_ne_nil _ _)
  · next eq =>
    obtain ⟨rfl, rfl⟩ := List.cons.inj (eq.symm.trans dropped)
    rw [if_neg other]

theorem countedArguments_nil (dropped : cs.dropWhile (· == space) = []) : countedArguments cs = 0 := by
  rw [countedArguments]
  split
  · rfl
  · next eq => exact absurd (dropped.symm.trans eq) (List.cons_ne_nil _ _).symm

theorem countedArguments_cons (dropped : cs.dropWhile (· == space) = c :: rest) :
    countedArguments cs =
      countedArguments (rest.dropWhile (· != if c = quote then quote else space)) + 1 := by
  rw [countedArguments]
  split
  · next eq => exact absurd (dropped.symm.trans eq) (List.cons_ne_nil _ _)
  · next eq =>
    obtain ⟨rfl, rfl⟩ := List.cons.inj (eq.symm.trans dropped)
    rfl

theorem count_quote (p : Byte → Bool) (cs : List Byte) :
    (cs.takeWhile p).count quote + (cs.dropWhile p).count quote = cs.count quote := by
  rw [← List.count_append, List.takeWhile_append_dropWhile]

theorem count_takeWhile_other {other : Byte} (ne : other ≠ quote) (cs : List Byte) :
    (cs.takeWhile (· == other)).count quote = 0 := by
  refine List.count_eq_zero.mpr fun member => ?_
  have kept := List.mem_takeWhile_imp member
  exact ne (beq_iff_eq.mp kept).symm

theorem count_takeWhile_quote (cs : List Byte) : (cs.takeWhile (· != quote)).count quote = 0 := by
  refine List.count_eq_zero.mpr fun member => ?_
  have kept := List.mem_takeWhile_imp member
  simp at kept

theorem quotes_arguments (cs : List Byte) : ((arguments cs).map Argument.quotes).sum = cs.count quote := by
  induction length : cs.length using Nat.strong_induction_on generalizing cs with
  | _ n ih =>
    have spaces := count_quote (· == space) cs
    rw [count_takeWhile_other (by decide), Nat.zero_add] at spaces
    rw [← spaces]
    cases dropped : cs.dropWhile (· == space) with
    | nil => rw [arguments_nil dropped]; rfl
    | cons c rest =>
      have shorter := length_rest dropped
      by_cases opening : c = quote
      · subst opening
        have inside := count_quote (· != quote) rest
        rw [count_takeWhile_quote, Nat.zero_add] at inside
        rw [List.count_cons_self, ← inside]
        cases closing : rest.dropWhile (· != quote) with
        | nil => rw [arguments_unclosed dropped closing]; rfl
        | cons q rest' =>
          have shorter' := length_rest closing
          have isQuote : q = quote := by
            have stopped := List.head?_dropWhile_not (· != quote) rest
            rw [closing] at stopped
            simpa using stopped
          rw [arguments_quoted dropped closing, List.map_cons, List.sum_cons,
            ih _ (length ▸ shorter'.trans shorter) rest' rfl, isQuote, List.count_cons_self]
          exact Nat.add_comm ..
      · have word := count_quote (· != space) rest
        rw [arguments_plain dropped opening, List.map_cons, List.sum_cons,
          ih _ (length ▸ (length_dropWhile_le _ _).trans_lt shorter) _ rfl, Argument.quotes,
          List.count_cons_of_ne opening, List.count_cons_of_ne opening, word]

theorem countedArguments_quote (rest : List Byte) :
    countedArguments (quote :: rest) = (quote :: rest).count quote := by
  induction length : rest.length using Nat.strong_induction_on generalizing rest with
  | _ n ih =>
    have dropped : (quote :: rest).dropWhile (· == space) = quote :: rest := rfl
    rw [countedArguments_cons dropped, if_pos rfl, List.count_cons_self]
    have inside := count_quote (· != quote) rest
    rw [count_takeWhile_quote, Nat.zero_add] at inside
    rw [← inside]
    cases closing : rest.dropWhile (· != quote) with
    | nil => rw [countedArguments_nil rfl]; rfl
    | cons q rest' =>
      have isQuote : q = quote := by
        have stopped := List.head?_dropWhile_not (· != quote) rest
        rw [closing] at stopped
        simpa using stopped
      rw [isQuote, ih _ (length ▸ length_rest closing) rest' rfl]

theorem countedArguments_eq (cs : List Byte) :
    countedArguments cs = ((arguments cs).takeWhile Argument.isPlain).length +
      (((arguments cs).dropWhile Argument.isPlain).map Argument.quotes).sum := by
  induction length : cs.length using Nat.strong_induction_on generalizing cs with
  | _ n ih =>
    cases dropped : cs.dropWhile (· == space) with
    | nil => rw [countedArguments_nil dropped, arguments_nil dropped]; rfl
    | cons c rest =>
      by_cases opening : c = quote
      · subst opening
        have all := quotes_arguments cs
        have spaces := count_quote (· == space) cs
        rw [count_takeWhile_other (by decide), Nat.zero_add, dropped] at spaces
        have whole : (quote :: rest).dropWhile (· == space) = quote :: rest := rfl
        have counted : countedArguments cs = cs.count quote := by
          rw [← spaces, ← countedArguments_quote, countedArguments_cons dropped, countedArguments_cons whole]
        have first : ∃ a as, arguments cs = a :: as ∧ a.isPlain = false := by
          cases closing : rest.dropWhile (· != quote) with
          | nil => exact ⟨_, _, arguments_unclosed dropped closing, rfl⟩
          | cons q rest' => exact ⟨_, _, arguments_quoted dropped closing, rfl⟩
        obtain ⟨a, as, eq, notPlain⟩ := first
        rw [counted, ← all, eq, List.takeWhile_cons_of_neg (by simp [notPlain]),
          List.dropWhile_cons_of_neg (by simp [notPlain])]
        exact (Nat.zero_add _).symm
      · have shorter := (length_dropWhile_le (· != space) rest).trans_lt (length_rest dropped)
        rw [countedArguments_cons dropped, if_neg opening, arguments_plain dropped opening,
          ih _ (length ▸ shorter) _ rfl, List.takeWhile_cons_of_pos rfl, List.dropWhile_cons_of_pos rfl,
          List.length_cons]
        omega

theorem balanced_iff (cs : List Byte) : Balanced cs ↔ countedArguments cs = (arguments cs).length := by
  have parts := congrArg List.length
    (List.takeWhile_append_dropWhile (p := Argument.isPlain) (l := arguments cs))
  rw [List.length_append] at parts
  unfold Balanced
  dsimp only
  rw [countedArguments_eq]
  omega

def Spells (mem : ByteMem) : Nat → List Byte → Prop
  | p, [] => mem p = nul
  | p, c :: cs => mem p = c ∧ c ≠ nul ∧ Spells mem (p + 1) cs

variable {mem mem' : ByteMem} {p rounds : Nat}

theorem Spells.congr (spells : Spells mem p cs)
    (same : ∀ i, p ≤ i → i ≤ p + cs.length → mem' i = mem i) : Spells mem' p cs := by
  induction cs generalizing p with
  | nil => exact (same p (le_refl _) (Nat.le_add_right _ _)).trans spells
  | cons c cs ih =>
    obtain ⟨first, notNul, later⟩ := spells
    refine ⟨(same p (le_refl _) (Nat.le_add_right _ _)).trans first, notNul, ih later fun i from_ until_ => ?_⟩
    rw [List.length_cons] at same
    exact same i (by omega) (by omega)

theorem skipWhile_spells {more : Byte → Bool} (spells : Spells mem p cs) (stops : more nul = false)
    (enough : cs.length < rounds) :
    skipWhile mem more rounds p = some (p + (cs.takeWhile more).length) ∧
      Spells mem (p + (cs.takeWhile more).length) (cs.dropWhile more) := by
  induction cs generalizing p rounds with
  | nil =>
    obtain ⟨k, rfl⟩ : ∃ k, rounds = k + 1 := ⟨rounds - 1, by simp at enough; omega⟩
    have ended : more (mem p) = false := by rw [show mem p = nul from spells]; exact stops
    refine ⟨?_, spells⟩
    rw [skipWhile, if_neg (by rw [ended]; exact Bool.false_ne_true)]
    rfl
  | cons c cs ih =>
    obtain ⟨k, rfl⟩ : ∃ k, rounds = k + 1 := ⟨rounds - 1, by simp at enough; omega⟩
    obtain ⟨first, notNul, later⟩ := spells
    by_cases on : more c = true
    · obtain ⟨reached, rest⟩ := ih later (by simpa using enough)
      rw [List.takeWhile_cons_of_pos on, List.dropWhile_cons_of_pos on, List.length_cons,
        skipWhile, first, if_pos on, reached]
      have place : p + 1 + (cs.takeWhile more).length = p + ((cs.takeWhile more).length + 1) := by omega
      exact ⟨congrArg some place, place ▸ rest⟩
    · rw [List.takeWhile_cons_of_neg on, List.dropWhile_cons_of_neg on, skipWhile, first, if_neg on]
      exact ⟨rfl, first, notNul, later⟩

theorem strlen_spells (spells : Spells mem p cs) (enough : cs.length < rounds) :
    strlen mem rounds p = some cs.length := by
  have all : cs.takeWhile (· != nul) = cs := by
    clear enough
    induction cs generalizing p with
    | nil => rfl
    | cons c cs ih =>
      obtain ⟨-, notNul, later⟩ := spells
      rw [List.takeWhile_cons_of_pos (by simpa using notNul), ih later]
  have reached : skipWhile mem (· != nul) rounds p = some (p + (cs.takeWhile (· != nul)).length) :=
    (skipWhile_spells spells rfl enough).1
  rw [strlen, reached, all, Option.map_some, Nat.add_sub_cancel_left]

theorem skipArgument_spells (terminator : Byte) (spells : Spells mem p cs) (enough : cs.length < rounds) :
    skipWhile mem (inArgument terminator) rounds p =
        some (p + (cs.takeWhile (· != terminator)).length) ∧
      Spells mem (p + (cs.takeWhile (· != terminator)).length) (cs.dropWhile (· != terminator)) := by
  have same : cs.takeWhile (inArgument terminator) = cs.takeWhile (· != terminator) ∧
      cs.dropWhile (inArgument terminator) = cs.dropWhile (· != terminator) := by
    clear enough
    induction cs generalizing p with
    | nil => exact ⟨rfl, rfl⟩
    | cons c cs ih =>
      obtain ⟨-, notNul, later⟩ := spells
      have notNul' : (c != nul) = true := by simpa using notNul
      obtain ⟨taken, dropped⟩ := ih later
      rw [List.takeWhile_cons, List.takeWhile_cons, List.dropWhile_cons, List.dropWhile_cons, inArgument, notNul',
        Bool.and_true, taken, dropped]
      exact ⟨rfl, rfl⟩
  have stops : inArgument terminator nul = false := by simp [inArgument]
  obtain ⟨reached, rest⟩ := skipWhile_spells spells stops enough
  rw [same.1] at reached rest
  rw [same.2] at rest
  exact ⟨reached, rest⟩

theorem setArgv_mem (s : ArgvScan) (argv : Option Nat) (value : Nat) {i : Nat} (before : ∀ a ∈ argv, i < a) :
    (s.setArgv argv value).mem i = s.mem i := by
  cases argv with
  | none => rfl
  | some a =>
    have := before a rfl
    exact ByteMem.store_before _ _ _ (by omega)

def pointerAt (argv : Option Nat) (argc : Nat) : List Nat :=
  argv.elim [] fun argv => List.range' (argv + 4 * argc) 4

theorem setArgv_stored (s : ArgvScan) (argv : Option Nat) (value : Nat) :
    (s.setArgv argv value).stored = s.stored ++ pointerAt argv s.argc := by
  cases argv with
  | none => exact (List.append_nil _).symm
  | some a => rfl

theorem setArgv_rest (s : ArgvScan) (argv : Option Nat) (value : Nat) :
    (s.setArgv argv value).cmdline = s.cmdline ∧ (s.setArgv argv value).argc = s.argc := by
  cases argv <;> exact ⟨rfl, rfl⟩

section Round

variable {s : ArgvScan} {argv : Option Nat} (spells : Spells s.mem s.cmdline cs)
include spells

theorem skipSpaces_spells (enough : cs.length ≤ rounds) :
    skipWhile s.mem (· == space) (rounds + 1) s.cmdline =
        some (s.cmdline + (cs.takeWhile (· == space)).length) ∧
      Spells s.mem (s.cmdline + (cs.takeWhile (· == space)).length) (cs.dropWhile (· == space)) :=
  skipWhile_spells spells rfl (Nat.lt_succ_of_le enough)

variable (argv) in
theorem buildArgv_done (enough : cs.length ≤ rounds) (dropped : cs.dropWhile (· == space) = []) :
    ∃ s', buildArgv argv (rounds + 1) s = some s' ∧ s'.argc = s.argc ∧
      s'.stored = s.stored ++ pointerAt argv s.argc := by
  obtain ⟨reached, ended⟩ := skipSpaces_spells spells enough
  rw [dropped] at ended
  have ended' : s.mem (s.cmdline + (cs.takeWhile (· == space)).length) = nul := ended
  rw [buildArgv, reached, Option.bind_some]
  dsimp only
  rw [if_pos ended']
  exact ⟨_, rfl, (setArgv_rest ..).2, setArgv_stored ..⟩

theorem buildArgv_argument (enough : cs.length ≤ rounds) (behind : ∀ a ∈ argv, s.cmdline + cs.length < a)
    (dropped : cs.dropWhile (· == space) = c :: rest) :
    ∃ s₁ : ArgvScan,
      Spells s₁.mem s₁.cmdline (rest.dropWhile (· != if c = quote then quote else space)) ∧
      s₁.argc = s.argc + 1 ∧ s.cmdline ≤ s₁.cmdline ∧
      s₁.cmdline + (rest.dropWhile (· != if c = quote then quote else space)).length = s.cmdline + cs.length ∧
      s₁.stored = s.stored ++ pointerAt argv s.argc ∧
      buildArgv argv (rounds + 1) s =
        if s₁.mem s₁.cmdline = (if c = quote then quote else space) ∧ argv.isSome then
          buildArgv argv rounds { s₁.store s₁.cmdline [nul] with cmdline := s₁.cmdline + 1 }
        else buildArgv argv rounds s₁ := by
  obtain ⟨reached, there⟩ := skipSpaces_spells spells enough
  have parts := congrArg List.length (List.takeWhile_append_dropWhile (p := (· == space)) (l := cs))
  rw [List.length_append] at parts
  have notSpace : (c == space) = false := by
    have stopped := List.head?_dropWhile_not (· == space) cs
    rw [dropped] at stopped
    simpa using stopped
  rw [dropped] at there parts
  rw [List.length_cons] at parts
  generalize (cs.takeWhile (· == space)).length = spaces at reached there parts
  obtain ⟨first, notNul, later⟩ := there
  -- the argument is looked for from here on
  obtain ⟨start, terminator, text, startIs, terminatorIs, spellsText, left, ends⟩ :
      ∃ start terminator text,
        start = (if c = quote then s.cmdline + spaces + 1 else s.cmdline + spaces) ∧
        terminator = (if c = quote then quote else space) ∧ Spells s.mem start text ∧
        text.dropWhile (· != terminator) = rest.dropWhile (· != terminator) ∧
        start + text.length = s.cmdline + cs.length := by
    by_cases opening : c = quote
    · refine ⟨_, _, rest, rfl, rfl, ?_, rfl, ?_⟩
      · rw [if_pos opening]
        exact later
      · rw [if_pos opening]
        omega
    · refine ⟨_, _, c :: rest, rfl, rfl, ?_, ?_, ?_⟩
      · rw [if_neg opening]
        exact ⟨first, notNul, later⟩
      · rw [if_neg opening, List.dropWhile_cons_of_pos (by simp [bne, notSpace])]
      · rw [if_neg opening, List.length_cons]
        omega
  rw [← terminatorIs, ← left]
  have setTo : (if c = quote then { s with cmdline := s.cmdline + spaces + 1 }
      else { s with cmdline := s.cmdline + spaces } : ArgvScan) = { s with cmdline := start } := by
    rw [startIs]
    split <;> rfl
  have fewer : text.length ≤ cs.length := by
    split at startIs <;> omega
  obtain ⟨restCmdline, restArgc⟩ := setArgv_rest { s with cmdline := start } argv start
  have spellsText' : Spells ({ s with cmdline := start }.setArgv argv start).mem start text := by
    refine spellsText.congr fun i _ until_ => setArgv_mem _ argv start fun a isArgv => ?_
    have := behind a isArgv
    omega
  have enough' : text.length < rounds + 1 := by omega
  obtain ⟨reached', there'⟩ := skipArgument_spells terminator spellsText' enough'
  have parts' := congrArg List.length (List.takeWhile_append_dropWhile (p := (· != terminator)) (l := text))
  rw [List.length_append] at parts'
  refine ⟨{ { s with cmdline := start }.setArgv argv start with
      cmdline := start + (text.takeWhile (· != terminator)).length, argc := s.argc + 1 },
    there', rfl, ?_, ?_, setArgv_stored .., ?_⟩
  · change s.cmdline ≤ start + _
    split at startIs <;> omega
  · change start + _ + _ = _
    omega
  · rw [buildArgv, reached, Option.bind_some]
    dsimp only
    rw [first, if_neg notNul, setTo, ← terminatorIs, restCmdline, restArgc]
    dsimp only
    rw [reached', Option.bind_some]

end Round

theorem spells_store (mem : ByteMem) (p : Nat) (noNul : ∀ c ∈ cs, c ≠ nul) :
    Spells (mem.store p (cs ++ [nul])) p cs := by
  have whole : ∀ i c, (cs ++ [nul])[i]? = some c → mem.store p (cs ++ [nul]) (p + i) = c := by
    intro i c found
    rw [ByteMem.store, if_pos (Nat.le_add_right _ _), Nat.add_sub_cancel_left, found, Option.getD_some]
  generalize mem.store p (cs ++ [nul]) = mem' at whole
  induction cs generalizing p with
  | nil => exact whole 0 nul rfl
  | cons c cs ih =>
    refine ⟨whole 0 c rfl, noNul c (List.mem_cons_self ..), ih (p + 1)
      (fun c member => noNul c (List.mem_cons_of_mem _ member)) fun i c found => ?_⟩
    have place : p + 1 + i = p + (i + 1) := by omega
    rw [place]
    exact whole (i + 1) c found

theorem buildArgv_counts (rounds : Nat) {s : ArgvScan} (spells : Spells s.mem s.cmdline cs)
    (enough : cs.length < rounds) :
    ∃ s', buildArgv none rounds s = some s' ∧ s'.argc = s.argc + countedArguments cs := by
  induction rounds generalizing s cs with
  | zero => exact absurd enough (Nat.not_lt_zero _)
  | succ rounds ih =>
    have enough' := Nat.le_of_lt_succ enough
    cases dropped : cs.dropWhile (· == space) with
    | nil =>
      obtain ⟨s', outcome, argc, -⟩ := buildArgv_done none spells enough' dropped
      exact ⟨s', outcome, by rw [argc, countedArguments_nil dropped, Nat.add_zero]⟩
    | cons c rest =>
      have noTable : ∀ a ∈ (none : Option Nat), s.cmdline + cs.length < a := by simp
      obtain ⟨s₁, spells', argc, -, -, -, round⟩ := buildArgv_argument spells enough' noTable dropped
      have shorter := (length_dropWhile_le (· != if c = quote then quote else space) rest).trans_lt
        (length_rest dropped)
      obtain ⟨s', outcome, argc'⟩ := ih spells' (shorter.trans_le enough')
      refine ⟨s', ?_, ?_⟩
      · rw [round, if_neg (by simp)]
        exact outcome
      · rw [argc', argc, countedArguments_cons dropped]
        omega

theorem arguments_congr {cs' : List Byte} (same : cs.dropWhile (· == space) = cs'.dropWhile (· == space)) :
    arguments cs = arguments cs' := by
  cases dropped : cs.dropWhile (· == space) with
  | nil => exact (arguments_nil dropped).trans (arguments_nil (same.symm.trans dropped)).symm
  | cons c rest =>
    have dropped' := same.symm.trans dropped
    by_cases opening : c = quote
    · subst opening
      cases closing : rest.dropWhile (· != quote) with
      | nil => exact (arguments_unclosed dropped closing).trans (arguments_unclosed dropped' closing).symm
      | cons q rest' => exact (arguments_quoted dropped closing).trans (arguments_quoted dropped' closing).symm
    · exact (arguments_plain dropped opening).trans (arguments_plain dropped' opening).symm

theorem arguments_empty : arguments [] = [] := arguments_nil rfl

theorem length_arguments (dropped : cs.dropWhile (· == space) = c :: rest) :
    (arguments cs).length =
      (arguments ((rest.dropWhile (· != if c = quote then quote else space)).drop 1)).length + 1 := by
  by_cases opening : c = quote
  · subst opening
    rw [if_pos rfl]
    cases closing : rest.dropWhile (· != quote) with
    | nil =>
      rw [arguments_unclosed dropped closing, List.drop_nil, arguments_empty]
      rfl
    | cons q rest' =>
      rw [arguments_quoted dropped closing]
      rfl
  · rw [if_neg opening, arguments_plain dropped opening, List.length_cons]
    cases ending : rest.dropWhile (· != space) with
    | nil => rfl
    | cons t rest' =>
      have stopped := List.head?_dropWhile_not (· != space) rest
      rw [ending] at stopped
      have isSpace : t = space := by simpa using stopped
      have same : (t :: rest').dropWhile (· == space) = rest'.dropWhile (· == space) :=
        List.dropWhile_cons_of_pos (by simp [isSpace])
      rw [arguments_congr same]
      rfl

theorem buildArgv_builds (rounds argv : Nat) {s : ArgvScan} (spells : Spells s.mem s.cmdline cs)
    (enough : cs.length < rounds) (behind : s.cmdline + cs.length < argv) :
    ∃ s', buildArgv (some argv) rounds s = some s' ∧ s'.argc = s.argc + (arguments cs).length ∧
      (∀ address ∈ s.stored, address ∈ s'.stored) ∧ argv + 4 * s'.argc + 3 ∈ s'.stored ∧
      ∀ address ∈ s'.stored, address ∈ s.stored ∨
        s.cmdline ≤ address ∧ address < s.cmdline + cs.length ∨
        argv + 4 * s.argc ≤ address ∧ address < argv + 4 * (s'.argc + 1) := by
  induction rounds generalizing s cs with
  | zero => exact absurd enough (Nat.not_lt_zero _)
  | succ rounds ih =>
    have enough' := Nat.le_of_lt_succ enough
    cases dropped : cs.dropWhile (· == space) with
    | nil =>
      obtain ⟨s', outcome, argc, stored⟩ := buildArgv_done (some argv) spells enough' dropped
      refine ⟨s', outcome, by rw [argc, arguments_nil dropped]; rfl, ?_, ?_, ?_⟩
      · rw [stored]
        exact fun address member => List.mem_append_left _ member
      · rw [stored, argc]
        exact List.mem_append_right _ (List.mem_range'_1.mpr (by omega))
      · intro address member
        rw [stored, List.mem_append] at member
        obtain before | pointer := member
        · exact .inl before
        · have := List.mem_range'_1.mp pointer
          rw [argc]
          exact .inr (.inr (by omega))
    | cons c rest =>
      have table : ∀ a ∈ some argv, s.cmdline + cs.length < a := by simpa using behind
      obtain ⟨s₁, spells', argc, from_, until_, stored, round⟩ :=
        buildArgv_argument spells enough' table dropped
      have shorter := (length_dropWhile_le (· != if c = quote then quote else space) rest).trans_lt
        (length_rest dropped)
      have number := length_arguments dropped
      rw [round]
      generalize terminatorIs : (if c = quote then quote else space) = terminator at *
      have notNul : nul ≠ terminator := by
        rw [← terminatorIs]
        split <;> decide
      cases left : rest.dropWhile (· != terminator) with
      | nil =>
        rw [left] at spells' until_ number
        rw [List.drop_nil] at number
        have ended : s₁.mem s₁.cmdline = nul := spells'
        have behind' : s₁.cmdline + ([] : List Byte).length < argv := by omega
        obtain ⟨s', outcome, argc', before, pointer, within⟩ :=
          ih spells' (by simp only [List.length_nil]; omega) behind'
        rw [ended, if_neg (fun both => notNul both.1)]
        refine ⟨s', outcome, by omega, ?_, pointer, fun address member => ?_⟩
        · intro address member
          refine before address ?_
          rw [stored]
          exact List.mem_append_left _ member
        · have place := within address member
          rw [stored, List.mem_append] at place
          obtain (old | new) | text | table := place
          · exact .inl old
          · have := List.mem_range'_1.mp new
            exact .inr (.inr (by omega))
          · exact .inr (.inl (by rw [List.length_nil] at text; omega))
          · exact .inr (.inr (by omega))
      | cons t left' =>
        rw [left] at spells' until_ number
        have stopped := List.head?_dropWhile_not (· != terminator) rest
        rw [left] at stopped
        have isTerminator : t = terminator := by simpa using stopped
        obtain ⟨first, -, later⟩ := spells'
        rw [List.length_cons] at until_
        have behind' : s₁.cmdline + 1 + left'.length < argv := by omega
        rw [first, isTerminator, if_pos ⟨rfl, rfl⟩]
        have kept : Spells (s₁.store s₁.cmdline [nul]).mem (s₁.cmdline + 1) left' :=
          later.congr fun i _ _ => ByteMem.store_behind _ _ _ (by simpa using by omega)
        obtain ⟨s', outcome, argc', before, pointer, within⟩ :=
          ih (s := { s₁.store s₁.cmdline [nul] with cmdline := s₁.cmdline + 1 }) kept (by omega) behind'
        change s'.argc = s₁.argc + _ at argc'
        refine ⟨s', outcome, ?_, ?_, pointer, fun address member => ?_⟩
        · rw [List.drop_one, List.tail_cons] at number
          omega
        · intro address member
          refine before address (List.mem_append_left _ ?_)
          rw [stored]
          exact List.mem_append_left _ member
        · have place := within address member
          change address ∈ s₁.stored ++ [s₁.cmdline] ∨
            s₁.cmdline + 1 ≤ address ∧ address < s₁.cmdline + 1 + left'.length ∨
            argv + 4 * s₁.argc ≤ address ∧ address < argv + 4 * (s'.argc + 1) at place
          rw [stored, List.mem_append, List.mem_append, List.mem_singleton] at place
          obtain ((old | new) | cut) | text | table := place
          · exact .inl old
          · have := List.mem_range'_1.mp new
            exact .inr (.inr (by omega))
          · exact .inr (.inl (by omega))
          · exact .inr (.inl (by omega))
          · exact .inr (.inr (by omega))

theorem toNat_rounded (x : BitVec 32) : (x &&& ~~~(STACK_ALIGNMENT - 1)).toNat = x.toNat / 8 * 8 := by
  have mask : (~~~(STACK_ALIGNMENT - 1)).toNat = (2 ^ 29 - 1) * 2 ^ 3 := by decide
  rw [toNat_and_field x _ mask]
  have := x.isLt
  omega

theorem setArgv_keeps (s : ArgvScan) (argv : Option Nat) (value : Nat) {address : Nat}
    (member : address ∈ s.stored) : address ∈ (s.setArgv argv value).stored := by
  rw [setArgv_stored]
  exact List.mem_append_left _ member

theorem buildArgv_stored {argv : Option Nat} (rounds : Nat) {s s' : ArgvScan}
    (outcome : buildArgv argv rounds s = some s') {address : Nat} (member : address ∈ s.stored) :
    address ∈ s'.stored := by
  induction rounds generalizing s with
  | zero => exact absurd outcome (by simp [buildArgv])
  | succ rounds ih =>
    rw [buildArgv, Option.bind_eq_some_iff] at outcome
    obtain ⟨first, -, outcome⟩ := outcome
    dsimp only at outcome
    split at outcome
    · rw [← Option.some.inj outcome]
      exact setArgv_keeps _ argv 0 member
    · rw [Option.bind_eq_some_iff] at outcome
      obtain ⟨last, -, outcome⟩ := outcome
      split at outcome
      all_goals
        split at outcome
        · exact ih outcome (List.mem_append_left _ (setArgv_keeps _ argv _ member))
        · exact ih outcome (setArgv_keeps _ argv _ member)

variable {cmdline buf : Nat}

theorem countArguments_eq (spells : Spells mem cmdline cs) (enough : cs.length < rounds) :
    countArguments mem rounds cmdline = some (countedArguments cs) := by
  obtain ⟨s', outcome, argc⟩ :=
    buildArgv_counts rounds (s := { mem, cmdline, argc := 0, stored := [] }) spells enough
  rw [countArguments, outcome, Option.map_some, argc]
  exact congrArg some (Nat.zero_add _)

theorem roundedSize_eq (length : Nat) : roundedSize length = BitVec.ofNat 32 ((length + 8) / 8 * 8) := by
  apply BitVec.eq_of_toNat_eq
  have sum : BitVec.ofNat 32 length + 1 + (STACK_ALIGNMENT - 1) = BitVec.ofNat 32 (length + 8) := by
    rw [BitVec.ofNat_add, BitVec.add_assoc]
    rfl
  rw [roundedSize, toNat_rounded, sum, BitVec.toNat_ofNat, BitVec.toNat_ofNat]
  omega

theorem sizeArguments_eq (spells : Spells mem cmdline cs) (enough : cs.length < rounds) :
    ∃ size, sizeArguments mem rounds cmdline = some size ∧
      size.toNat = ((cs.length + 8) / 8 * 8 + (countedArguments cs + 1) * 4 + 7) % 2 ^ 32 / 8 * 8 := by
  refine ⟨_, by rw [sizeArguments, countArguments_eq spells enough, strlen_spells spells enough]; rfl, ?_⟩
  have rounded := roundedSize_eq cs.length
  generalize (cs.length + 8) / 8 * 8 = text at rounded ⊢
  have sum : roundedSize cs.length + (BitVec.ofNat 32 (countedArguments cs) + 1) * 4 + STACK_ALIGNMENT - 1 =
      BitVec.ofNat 32 (text + (countedArguments cs + 1) * 4 + 7) := by
    rw [rounded, BitVec.ofNat_add, BitVec.ofNat_add, BitVec.ofNat_mul, BitVec.ofNat_add, add_sub_assoc]
    rfl
  rw [toNat_rounded, sum, BitVec.toNat_ofNat]

structure CmdLine where
  chars : CharPtr
  noNul : ∀ c ∈ chars, c ≠ nul

def CmdLine.bytes (text : CmdLine) : List Byte := text.chars ++ [nul]

theorem buildArguments_copies (text : CmdLine) (base : ByteMem) (cmdline buf : Nat) :
    ∃ s : ArgvScan, s.cmdline = buf ∧ s.argc = 0 ∧ s.stored = List.range' buf (text.chars.length + 1) ∧
      Spells s.mem buf text.chars ∧
      buildArguments (base.store cmdline text.bytes) (text.chars.length + 1) cmdline buf =
        buildArgv (some (buf + (roundedSize text.chars.length).toNat)) (text.chars.length + 1) s := by
  have spells : Spells (base.store cmdline text.bytes) cmdline text.chars := spells_store base cmdline text.noNul
  have size : text.bytes.length = text.chars.length + 1 := by simp [CmdLine.bytes]
  have copied : ByteMem.load (base.store cmdline text.bytes) cmdline (text.chars.length + 1) = text.bytes := by
    rw [← size]
    exact ByteMem.load_store_self base cmdline text.bytes
  let s : ArgvScan := { mem := base.store cmdline text.bytes, cmdline := buf, argc := 0, stored := [] }
  have spells' : Spells (s.store buf text.bytes).mem buf text.chars :=
    spells_store (base.store cmdline text.bytes) buf text.noNul
  have length := strlen_spells spells (Nat.lt_succ_self _)
  have length' := strlen_spells spells' (Nat.lt_succ_self _)
  refine ⟨s.store buf text.bytes, rfl, rfl, ?_, spells', ?_⟩
  · rw [← size]
    exact List.nil_append _
  · simp only [buildArguments, length, Option.bind_eq_bind, Option.bind_some, copied]
    exact congrArg (Option.bind · _) length'

theorem passesAgree_iff (text : CmdLine) (base : ByteMem) (cmdline buf : Nat) :
    PassesAgree (base.store cmdline text.bytes) (text.chars.length + 1) cmdline buf ↔
      Balanced text.chars ∧ Fits text.chars := by
  have spells := spells_store base cmdline text.noNul
  have enough := Nat.lt_succ_self text.chars.length
  have counted := countArguments_eq spells enough
  obtain ⟨size, sized, sizeIs⟩ := sizeArguments_eq spells enough
  obtain ⟨s, cmdlineIs, argcIs, storedIs, copy, built⟩ := buildArguments_copies text base cmdline buf
  have copied : buf + text.chars.length ∈ s.stored := by
    rw [storedIs]
    exact List.mem_range'_1.mpr (by omega)
  rw [balanced_iff, Fits]
  by_cases short : text.chars.length + 8 < 2 ^ 32
  · have table : (roundedSize text.chars.length).toNat = (text.chars.length + 8) / 8 * 8 := by
      rw [roundedSize_eq, BitVec.toNat_ofNat]
      omega
    rw [table] at built
    obtain ⟨s', outcome, argc, kept, last, within⟩ :=
      buildArgv_builds (text.chars.length + 1) (buf + (text.chars.length + 8) / 8 * 8)
        (cmdlineIs ▸ copy) enough (by rw [cmdlineIs]; omega)
    rw [argcIs, Nat.zero_add] at argc
    constructor
    · rintro ⟨argc', size', s'', counted', sized', built', same, inside⟩
      obtain rfl := Option.some.inj (counted.symm.trans counted')
      obtain rfl := Option.some.inj (sized.symm.trans sized')
      obtain rfl := Option.some.inj ((built.trans outcome).symm.trans built')
      have balanced := same.trans argc
      have pointer := (inside _ last).2
      rw [sizeIs, balanced] at pointer
      exact ⟨balanced, by omega⟩
    · rintro ⟨balanced, fits⟩
      refine ⟨_, _, s', counted, sized, built.trans outcome, balanced.trans argc.symm, fun address member => ?_⟩
      have place := within address member
      rw [storedIs, cmdlineIs, argcIs, List.mem_range'_1] at place
      rw [sizeIs, balanced]
      omega
  · constructor
    · rintro ⟨argc', size', s'', -, sized', built', -, inside⟩
      obtain rfl := Option.some.inj (sized.symm.trans sized')
      have character := (inside _ (buildArgv_stored _ (built.symm.trans built') copied)).2
      rw [sizeIs] at character
      omega
    · rintro ⟨-, fits⟩
      omega

theorem passesAgree_fails :
    let cmdline : List Byte := [34, 97, 34, 32, 98, 32, 99, 32, 100, 32, 101, 0]
    ¬ PassesAgree (ByteMem.store (fun _ => 0) 100 cmdline) 12 100 200 ∧
    (∃ size built, sizeArguments (ByteMem.store (fun _ => 0) 100 cmdline) 12 100 = some size ∧
      buildArguments (ByteMem.store (fun _ => 0) 100 cmdline) 12 100 200 = some built ∧
      239 ∈ built.stored ∧ 200 + size.toNat = 232) := by
  intro cmdline
  have counted : countArguments (ByteMem.store (fun _ => 0) 100 cmdline) 12 100 = some 2 := by decide +kernel
  have sized : sizeArguments (ByteMem.store (fun _ => 0) 100 cmdline) 12 100 = some 32 := by decide +kernel
  have built : ((buildArguments (ByteMem.store (fun _ => 0) 100 cmdline) 12 100 200).map fun s =>
      (s.argc, decide (239 ∈ s.stored))) = some (5, true) := by decide +kernel
  obtain ⟨s, outcome, fields⟩ := Option.map_eq_some_iff.mp built
  obtain ⟨argc, last⟩ := Prod.mk.inj fields
  refine ⟨?_, 32, s, sized, outcome, of_decide_eq_true last, rfl⟩
  rintro ⟨argc', size, s', counted', -, outcome', same, -⟩
  obtain rfl := Option.some.inj (counted.symm.trans counted')
  obtain rfl := Option.some.inj (outcome.symm.trans outcome')
  exact absurd (same.trans argc) (by decide)

end Portfolio.Kernel.TaskArguments
