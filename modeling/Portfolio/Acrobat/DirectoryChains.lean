import Portfolio.Acrobat.Directory
import Portfolio.Lib.Chain
import Mathlib.Data.List.Perm.Subperm

set_option autoImplicit false

namespace Portfolio.Acrobat

open Portfolio.Lib

theorem sameName_iff {a b : Name} : sameName a b = true ↔ a.map lowerCase = b.map lowerCase :=
  beq_iff_eq

theorem hashFrom_congr {a b : Name} {hash i : UInt32} (same : a.map lowerCase = b.map lowerCase) :
    hashFrom hash i a = hashFrom hash i b := by
  induction a generalizing b hash i with
  | nil =>
    cases b with
    | nil => rfl
    | cons ch b => cases same
  | cons ch a ih =>
    cases b with
    | nil => cases same
    | cons ch' b =>
      simp only [List.map_cons, List.cons.injEq] at same
      rw [hashFrom, hashFrom, same.1]
      exact ih same.2

theorem hashName_congr (fs : AcroFS) {a b : Name} (same : sameName a b = true) :
    hashName fs a = hashName fs b := by
  rw [hashName, hashName, hashFrom_congr (sameName_iff.mp same)]

theorem hashName_lt (fs : AcroFS) (name : Name) : hashName fs name < maxDirblockEntries fs := by
  have room := fs.roomForTable
  exact Nat.mod_lt _ (by unfold maxDirblockEntries; omega)

namespace Blocks

def header (s : Blocks) (b : BlockNum) : Option (Name × BlockNum) :=
  (s b).map fun deh => (deh.name, deh.parent)

variable {s : Blocks} {b c dir par new file link : BlockNum} {indx : Nat} {deh : EntryBlock}
  {name : Name} {loose : Option BlockNum} {table : Nat → BlockNum} {entries : List BlockNum}

@[simp] theorem header_setNext : (s.setNext b link).header = s.header := by
  funext c
  by_cases same : c = b
  · subst same
    cases found : s c <;> simp [header, setNext, found]
  · simp [header, setNext, same]

@[simp] theorem hashTable_setNext : (s.setNext b link).hashTable = s.hashTable := by
  funext c
  by_cases same : c = b
  · subst same
    cases found : s c <;> simp [hashTable, setNext, found]
  · simp [hashTable, setNext, same]

theorem next_setNext (live : s b = some deh) :
    (s.setNext b link).next = Function.update s.next b link := by
  funext c
  by_cases same : c = b
  · subst same
    simp [next, setNext, live]
  · simp [next, setNext, same]

@[simp] theorem header_setTable : (s.setTable dir indx link).header = s.header := by
  funext c
  by_cases same : c = dir
  · subst same
    cases found : s c with
    | none => simp [header, setTable, found]
    | some deh => cases body : deh.body <;> simp [header, setTable, found, body]
  · simp [header, setTable, same]

@[simp] theorem next_setTable : (s.setTable dir indx link).next = s.next := by
  funext c
  by_cases same : c = dir
  · subst same
    cases found : s c with
    | none => simp [next, setTable, found]
    | some deh => cases body : deh.body <;> simp [next, setTable, found, body]
  · simp [next, setTable, same]

theorem hashTable_setTable : (s.setTable dir indx link).hashTable c =
    if c = dir then (s.hashTable dir).map fun table => Function.update table indx link
    else s.hashTable c := by
  by_cases same : c = dir
  · subst same
    cases found : s c with
    | none => simp [hashTable, setTable, found]
    | some deh => cases body : deh.body <;> simp [hashTable, setTable, found, body]
  · simp [hashTable, setTable, same]

variable (s b) in
theorem header_update (deh : Option EntryBlock) : header (Function.update s b deh) =
    Function.update s.header b (deh.map fun deh => (deh.name, deh.parent)) := by
  funext c
  by_cases same : c = b
  · subst same
    simp [header]
  · simp [header, same]

theorem next_update {deh : Option EntryBlock} : next (Function.update s b deh) =
    Function.update s.next b ((deh.map (·.nextDirEntry)).getD NULL_BLOCKNUM) := by
  funext c
  by_cases same : c = b
  · subst same
    cases deh <;> simp [next]
  · simp [next, same]

theorem hashTable_update {deh : Option EntryBlock} (other : c ≠ b) :
    hashTable (Function.update s b deh) c = s.hashTable c := by
  simp [hashTable, other]

theorem exists_of_header {entry : Name × BlockNum} (found : s.header b = some entry) :
    ∃ deh, s b = some deh ∧ deh.name = entry.1 ∧ deh.parent = entry.2 := by
  obtain ⟨deh, here, same⟩ := Option.map_eq_some_iff.mp found
  exact ⟨deh, here, congrArg Prod.fst same, congrArg Prod.snd same⟩

def Enters (fs : AcroFS) (s : Blocks) (loose : Option BlockNum) (dir : BlockNum) (indx : Nat)
    (b : BlockNum) : Prop :=
  some b ≠ loose ∧ ∃ name, s.header b = some (name, dir) ∧ hashName fs name = indx

structure HashChain (fs : AcroFS) (s : Blocks) (loose : Option BlockNum) (dir : BlockNum)
    (indx : Nat) (head : BlockNum) (entries : List BlockNum) : Prop where
  chain : Chain s.next NULL_BLOCKNUM head entries
  nodup : entries.Nodup
  member : ∀ b, b ∈ entries ↔ s.Enters fs loose dir indx b

structure Chained (fs : AcroFS) (s : Blocks) (loose : Option BlockNum) : Prop where
  inVolume : ∀ b entry, s.header b = some entry → b < fs.volumeBlockCount
  inDirectory : ∀ b name par, s.header b = some (name, par) →
    par = NULL_BLOCKNUM ∨ (s.hashTable par).isSome
  chains : ∀ dir table, s.hashTable dir = some table → ∀ indx < maxDirblockEntries fs,
    ∃ entries, s.HashChain fs loose dir indx (table indx) entries
  names : ∀ b c name name' par, s.header b = some (name, par) → s.header c = some (name', par) →
    some b ≠ loose → some c ≠ loose → sameName name name' = true → b = c

variable {fs : AcroFS} {head : BlockNum}

namespace HashChain

theorem live (hash : HashChain fs s loose dir indx head entries) (member : b ∈ entries) :
    ∃ name, s.header b = some (name, dir) ∧ hashName fs name = indx :=
  ((hash.member b).mp member).2

theorem length_le (hash : HashChain fs s loose dir indx head entries)
    (chained : Chained fs s loose) : entries.length ≤ fs.volumeBlockCount := by
  have inside : entries ⊆ List.range fs.volumeBlockCount := by
    intro b member
    obtain ⟨name, found, -⟩ := hash.live member
    exact List.mem_range.mpr (chained.inVolume b _ found)
  simpa using (hash.nodup.subperm inside).length_le

theorem congr {s' : Blocks} {loose' : Option BlockNum}
    (hash : HashChain fs s loose dir indx head entries)
    (links : ∀ b ∈ entries, s'.next b = s.next b)
    (same : ∀ b, s'.Enters fs loose' dir indx b ↔ s.Enters fs loose dir indx b) :
    HashChain fs s' loose' dir indx head entries where
  chain := hash.chain.congr links
  nodup := hash.nodup
  member b := (hash.member b).trans (same b).symm

end HashChain

variable (name) in
theorem lastOfChain_fresh {steps : Nat} (last : Option BlockNum)
    (chain : Chain s.next NULL_BLOCKNUM head entries)
    (fresh : ∀ b ∈ entries, ∃ deh, s b = some deh ∧ sameName deh.name name = false)
    (enough : entries.length < steps) :
    s.lastOfChain name steps head last = .ok (entries.getLast?.or last) := by
  induction entries generalizing head steps last with
  | nil =>
    obtain ⟨steps, rfl⟩ := Nat.exists_eq_add_of_lt enough
    rw [chain.eq_stop]
    simp [lastOfChain]
  | cons b entries ih =>
    obtain ⟨rfl, ne, tail⟩ := chain
    obtain ⟨deh, live, other⟩ := fresh head (by simp)
    cases steps with
    | zero => simp at enough
    | succ steps =>
      have link : deh.nextDirEntry = s.next head := by simp [next, live]
      rw [lastOfChain, if_neg ne]
      simp only [live, other, Bool.false_eq_true, if_false, link]
      rw [ih _ tail (fun b member => fresh b (by simp [member])) (by simpa using enough)]
      cases entries with
      | nil => rfl
      | cons c entries => simp [List.getLast?_cons]

variable (name) in
theorem lastOfChain_duplicate {steps : Nat} (last : Option BlockNum)
    (chain : Chain s.next NULL_BLOCKNUM head entries)
    (live : ∀ b ∈ entries, (s b).isSome)
    (duplicate : ∃ b ∈ entries, ∃ deh, s b = some deh ∧ sameName deh.name name = true)
    (enough : entries.length < steps) :
    s.lastOfChain name steps head last = .err .duplicateFile := by
  induction entries generalizing head steps last with
  | nil =>
    obtain ⟨b, member, -⟩ := duplicate
    cases member
  | cons b entries ih =>
    obtain ⟨rfl, ne, tail⟩ := chain
    obtain ⟨deh, here⟩ := Option.isSome_iff_exists.mp (live head (by simp))
    cases steps with
    | zero => simp at enough
    | succ steps =>
      have link : deh.nextDirEntry = s.next head := by simp [next, here]
      rw [lastOfChain, if_neg ne]
      cases same : sameName deh.name name with
      | true => simp [here, same]
      | false =>
        simp only [here, same, Bool.false_eq_true, if_false, link]
        refine ih _ tail (fun b member => live b (by simp [member])) ?_ (by simpa using enough)
        obtain ⟨c, member, deh', there, same'⟩ := duplicate
        cases member with
        | head =>
          rw [here] at there
          cases there
          rw [same] at same'
          cases same'
        | tail _ member => exact ⟨c, member, deh', there, same'⟩

theorem findPrevious_eq {steps : Nat} {prev : BlockNum} {before rest : List BlockNum}
    (chain : Chain s.next NULL_BLOCKNUM head (before ++ prev :: file :: rest))
    (nodup : (before ++ prev :: file :: rest).Nodup)
    (live : ∀ b ∈ before ++ [prev], (s b).isSome)
    (enough : before.length < steps) :
    s.findPrevious file steps head = .ok (some prev) := by
  induction before generalizing head steps with
  | nil =>
    obtain ⟨rfl, ne, link, -⟩ := chain
    obtain ⟨deh, here⟩ := Option.isSome_iff_exists.mp (live head (by simp))
    cases steps with
    | zero => simp at enough
    | succ steps =>
      have found : deh.nextDirEntry = file := by rw [← link]; simp [next, here]
      rw [findPrevious, if_neg ne]
      simp [here, found]
  | cons b before ih =>
    obtain ⟨rfl, ne, tail⟩ := chain
    obtain ⟨deh, here⟩ := Option.isSome_iff_exists.mp (live head (by simp))
    cases steps with
    | zero => simp at enough
    | succ steps =>
      have link : deh.nextDirEntry = s.next head := by simp [next, here]
      have nodup := (List.nodup_cons.mp nodup).2
      have later : s.next head ≠ file := by
        intro same
        cases before with
        | nil =>
          obtain ⟨first, -⟩ := tail
          exact absurd (first.symm.trans same) (by simp_all)
        | cons c before =>
          obtain ⟨first, -⟩ := tail
          have := (List.nodup_cons.mp nodup).1
          simp [← first, same] at this
      rw [findPrevious, if_neg ne]
      simp only [here, link, if_neg later]
      exact ih tail nodup (fun b member => live b (by simp_all)) (by simpa using enough)

end Blocks

end Portfolio.Acrobat
