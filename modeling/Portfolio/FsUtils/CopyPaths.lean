import Portfolio.Lib.CharBuffer
import Portfolio.Lib.Run

set_option autoImplicit false

namespace Portfolio.FsUtils

open Portfolio.Lib

def filesystemMaxPathLen : Nat := 256
def filesystemMaxNameLen : Nat := 32

/-- A C string. It lies in memory beside the copier, so that sums of a few lengths do not wrap around. -/
structure CString where
  chars : CharPtr
  noNul : ∀ c ∈ chars, c ≠ 0

structure FileName extends CString where
  short : chars.length < filesystemMaxNameLen

def slash : Byte := 47

def u32 (n : Nat) : Nat := n % 2 ^ 32

def stccpyFrom {size : Nat} (dst : CharBuffer size) (i maxChars : Nat) : CharPtr → Option (CharBuffer size)
  | [] => dst.put i 0
  | c :: src =>
    if i < maxChars - 1 then
      match dst.put i c with
      | none => none
      | some dst => stccpyFrom dst (i + 1) maxChars src
    else dst.put i 0

def stccpy {size : Nat} (dst : CharBuffer size) (src : CharPtr) (maxChars : Nat) : Option (CharBuffer size) :=
  if maxChars = 0 then some dst else stccpyFrom dst 0 maxChars src

def ignoreSlashes (path : CharPtr) : Nat → Nat
  | 0 => 0
  | pathLen + 1 => if 0 < pathLen ∧ path[pathLen]? = some slash then ignoreSlashes path pathLen else pathLen + 1

/-- `AppendPath`. When there is no room it changes nothing. -/
def appendPath {size : Nat} (path : CharBuffer size) (append : CharPtr) (numBytes : Nat) : Option (CharBuffer size) :=
  let pathLen := if append.head? = some slash then 0 else ignoreSlashes path.text path.text.length
  if numBytes ≤ pathLen + 1 + append.length + 1 then some path
  else if 1 < pathLen then
    match path.put pathLen slash with
    | none => none
    | some path => path.putAll (pathLen + 1) (append ++ [0])
  else path.putAll pathLen (append ++ [0])

def pathLen (len : Nat) : List FileName → Nat
  | [] => len
  | fn :: parents => pathLen (u32 (len + (fn.chars.length + 1))) parents

def putNames {size : Nat} (result : CharBuffer size) (len : Nat) : List FileName → Option (CharBuffer size)
  | [] => some result
  | fn :: parents =>
    let nameLen := fn.chars.length + 1
    let len := u32 (len + (2 ^ 32 - nameLen))
    match result.putAll (u32 (len + 1)) fn.chars with
    | none => none
    | some result =>
      match result.put len slash with
      | none => none
      | some result => putNames result len parents

def makePath {size : Nat} (rootPath : CharPtr) (result : CharBuffer size) (entry : List FileName) :
    Option (CharBuffer size) :=
  let len := pathLen rootPath.length entry
  match result.put len 0 with
  | none => none
  | some result =>
    match putNames result len entry with
    | none => none
    | some result => result.putAll 0 rootPath

def takeFsName {size : Nat} (fsName : CharBuffer size) (i : Nat) : List Byte → Option (CharBuffer size)
  | [] => none
  | c :: rest =>
    match fsName.put i c with
    | none => none
    | some fsName => if c = 0 ∨ c = slash then fsName.put i 0 else takeFsName fsName (i + 1) rest

abbrev Path := CharBuffer (filesystemMaxPathLen + 1)

/-- What the two machines keep for their paths. `current` is the directory that a machine is in, as the names from
it up to the root. -/
structure MachinePaths where
  directory : Path
  workPath : Path
  current : List FileName

structure CopyObj where
  reader : MachinePaths
  writer : MachinePaths

inductive Machine
  | reader
  | writer
  deriving DecidableEq

namespace CopyObj

def paths (co : CopyObj) : Machine → MachinePaths
  | .reader => co.reader
  | .writer => co.writer

def setPaths (co : CopyObj) (m : Machine) (p : MachinePaths) : CopyObj :=
  match m with
  | .reader => { co with reader := p }
  | .writer => { co with writer := p }

end CopyObj

def initReaderMachine (co : CopyObj) (deFileName : CharBuffer filesystemMaxNameLen) (sourceDir objName : CString) :
    Option (CopyObj × CharBuffer filesystemMaxNameLen) :=
  match stccpy co.reader.directory sourceDir.chars (filesystemMaxPathLen + 1) with
  | none => none
  | some directory =>
    match stccpy deFileName objName.chars filesystemMaxNameLen with
    | none => none
    | some deFileName =>
      match stccpy co.reader.workPath sourceDir.chars (filesystemMaxPathLen + 1) with
      | none => none
      | some workPath =>
        match appendPath workPath objName.chars (filesystemMaxPathLen + 1) with
        | none => none
        | some workPath => some ({ co with reader := ⟨directory, workPath, []⟩ }, deFileName)

def initWriterMachine (co : CopyObj) (path : CString) : Option CopyObj :=
  match stccpy co.writer.directory path.chars (filesystemMaxPathLen + 1) with
  | none => none
  | some directory =>
    match stccpy co.writer.workPath path.chars (filesystemMaxPathLen + 1) with
    | none => none
    | some workPath => some { co with writer := ⟨directory, workPath, []⟩ }

/-- What happens to the paths in a copy. The names are those of the tree that is copied, and `opened` is whether
the directory could be opened. -/
inductive CopyEvent
  | enterDir (m : Machine) (name : FileName) (opened : Bool)
  | openFile (m : Machine) (name : FileName)
  | exitDir (m : Machine)
  | fails (m : Machine)
  | performCopy (destinationDir : CString)

def step (fsName : CharBuffer (filesystemMaxNameLen + 1)) (co : CopyObj) : CopyEvent → Option CopyObj
  | .enterDir m name opened =>
    let p := co.paths m
    match makePath p.directory.text p.workPath (name :: p.current) with
    | none => none
    | some workPath =>
      -- the writer goes to the directory before it is created
      some (co.setPaths m
        { p with workPath := workPath
                 current := if opened = true ∨ m = .writer then name :: p.current else p.current })
  | .openFile m name =>
    let p := co.paths m
    match makePath p.directory.text p.workPath (name :: p.current) with
    | none => none
    | some workPath => some (co.setPaths m { p with workPath := workPath })
  | .exitDir m => some (co.setPaths m { co.paths m with current := (co.paths m).current.tail })
  | .fails m =>
    match takeFsName fsName 0 ((co.paths m).workPath.chars.drop 1) with
    | none => none
    | some _ => some co
  | .performCopy destinationDir => initWriterMachine co destinationDir

def fullPath (root : CharPtr) : List FileName → CharPtr
  | [] => root
  | fn :: parents => fullPath root parents ++ slash :: fn.chars

def component (workPath : Path) : CharPtr := (workPath.chars.drop 1).takeWhile fun c => c != 0 && c != slash

def Fits (co : CopyObj) : CopyEvent → Prop
  | .enterDir m name _ =>
    (fullPath (co.paths m).directory.text (name :: (co.paths m).current)).length ≤ filesystemMaxPathLen
  | .openFile m name =>
    (fullPath (co.paths m).directory.text (name :: (co.paths m).current)).length ≤ filesystemMaxPathLen
  | .exitDir _ => True
  | .fails m => (component (co.paths m).workPath).length ≤ filesystemMaxNameLen
  | .performCopy _ => True

def Stays (fsName : CharBuffer (filesystemMaxNameLen + 1)) (co : CopyObj) (event : CopyEvent) : Prop :=
  ∃ co', step fsName co event = some co' ∧
    match event with
    | .enterDir m name _ =>
      (co'.paths m).workPath.text = fullPath (co.paths m).directory.text (name :: (co.paths m).current)
    | .openFile m name =>
      (co'.paths m).workPath.text = fullPath (co.paths m).directory.text (name :: (co.paths m).current)
    | .performCopy destinationDir => co'.writer.directory.text = destinationDir.chars.take filesystemMaxPathLen
    | _ => True

section

variable {size : Nat}

theorem stccpyFrom_some (dst : CharBuffer size) {i maxChars : Nat} (src : CharPtr) (inside : i < maxChars)
    (room : maxChars ≤ size) :
    ∃ b rest, stccpyFrom dst i maxChars src = some b ∧
      b.chars = dst.chars.take i ++ (src.take (maxChars - 1 - i) ++ 0 :: rest) := by
  induction src generalizing dst i with
  | nil =>
    obtain ⟨b, put, chars⟩ := CharBuffer.put_some dst 0 (show i < size by omega)
    exact ⟨b, _, put, by rw [chars, List.take_nil]; rfl⟩
  | cons c src ih =>
    rw [stccpyFrom]
    by_cases more : i < maxChars - 1
    · obtain ⟨b, put, chars⟩ := CharBuffer.put_some dst c (show i < size by omega)
      obtain ⟨b', rest, copied, copiedChars⟩ := @ih b (i + 1) (by omega)
      rw [if_pos more, put]
      refine ⟨b', rest, copied, ?_⟩
      have front : (dst.chars.take i ++ [c]).length = i + 1 := by
        have length := dst.sized
        rw [List.length_append, List.length_take, List.length_singleton]
        omega
      rw [List.append_cons] at chars
      rw [copiedChars, chars, List.take_left' front, show maxChars - 1 - i = maxChars - 1 - (i + 1) + 1 by omega,
        List.take_succ_cons, List.append_assoc]
      rfl
    · obtain ⟨b, put, chars⟩ := CharBuffer.put_some dst 0 (show i < size by omega)
      rw [if_neg more]
      refine ⟨b, dst.chars.drop (i + 1), put, ?_⟩
      rw [chars, show maxChars - 1 - i = 0 by omega, List.take_zero]
      rfl

theorem stccpy_some (dst : CharBuffer size) (src : CString) (maxChars : Nat) (some : 0 < maxChars)
    (room : maxChars ≤ size) :
    ∃ b, stccpy dst src.chars maxChars = Option.some b ∧ b.text = src.chars.take (maxChars - 1) := by
  obtain ⟨b, rest, copied, chars⟩ := stccpyFrom_some dst src.chars some room
  refine ⟨b, (if_neg (by omega)).trans copied, ?_⟩
  rw [List.take_zero, List.nil_append, Nat.sub_zero] at chars
  exact CharBuffer.text_eq chars fun c member => src.noNul c (List.mem_of_mem_take member)

theorem appendPath_some (path : CharBuffer size) (append : CharPtr) (numBytes : Nat) (room : numBytes ≤ size) :
    ∃ b, appendPath path append numBytes = some b := by
  unfold appendPath
  generalize (if append.head? = some slash then 0 else ignoreSlashes path.text path.text.length) = pathLen
  have ends : (append ++ [0]).length = append.length + 1 := List.length_append
  dsimp only
  split_ifs with full long
  · exact ⟨path, rfl⟩
  · obtain ⟨b, put, -⟩ := CharBuffer.put_some path slash (show pathLen < size by omega)
    obtain ⟨b', puts, -⟩ := CharBuffer.putAll_some b (append ++ [0])
      (show pathLen + 1 + _ ≤ size by omega)
    rw [put]
    exact ⟨b', puts⟩
  · obtain ⟨b, puts, -⟩ := CharBuffer.putAll_some path (append ++ [0])
      (show pathLen + _ ≤ size by omega)
    exact ⟨b, puts⟩

end

theorem initReaderMachine_some (co : CopyObj) (deFileName : CharBuffer filesystemMaxNameLen)
    (sourceDir objName : CString) :
    ∃ start, initReaderMachine co deFileName sourceDir objName = some start ∧
      start.1.reader.directory.text = sourceDir.chars.take filesystemMaxPathLen ∧ start.1.reader.current = [] := by
  obtain ⟨directory, first, text⟩ :=
    stccpy_some co.reader.directory sourceDir (filesystemMaxPathLen + 1) (by decide) (Nat.le_refl _)
  obtain ⟨name, second, -⟩ :=
    stccpy_some deFileName objName filesystemMaxNameLen (by decide) (Nat.le_refl _)
  obtain ⟨workPath, third, -⟩ :=
    stccpy_some co.reader.workPath sourceDir (filesystemMaxPathLen + 1) (by decide) (Nat.le_refl _)
  obtain ⟨appended, last⟩ := appendPath_some workPath objName.chars (filesystemMaxPathLen + 1) (Nat.le_refl _)
  refine ⟨({ co with reader := ⟨directory, appended, []⟩ }, name), ?_, text, rfl⟩
  simp only [initReaderMachine, first, second, third, last]

theorem initWriterMachine_some (co : CopyObj) (path : CString) :
    ∃ co', initWriterMachine co path = some co' ∧
      co'.writer.directory.text = path.chars.take filesystemMaxPathLen := by
  obtain ⟨directory, first, text⟩ :=
    stccpy_some co.writer.directory path (filesystemMaxPathLen + 1) (by decide) (Nat.le_refl _)
  obtain ⟨workPath, second, -⟩ :=
    stccpy_some co.writer.workPath path (filesystemMaxPathLen + 1) (by decide) (Nat.le_refl _)
  refine ⟨{ co with writer := ⟨directory, workPath, []⟩ }, ?_, text⟩
  simp only [initWriterMachine, first, second]

theorem fullPath_eq (root : CharPtr) (entry : List FileName) : fullPath root entry = root ++ fullPath [] entry := by
  induction entry with
  | nil => exact (List.append_nil _).symm
  | cons fn parents ih => rw [fullPath, ih, List.append_assoc, fullPath]

theorem length_fullPath (root : CharPtr) (entry : List FileName) :
    (fullPath root entry).length = root.length + (fullPath [] entry).length := by
  rw [fullPath_eq, List.length_append]

theorem length_fullPath_cons (root : CharPtr) (fn : FileName) (parents : List FileName) :
    (fullPath root (fn :: parents)).length = (fullPath root parents).length + (fn.chars.length + 1) := by
  rw [fullPath, List.length_append, List.length_cons]

theorem fullPath_noNul {root : CharPtr} (noNul : ∀ c ∈ root, c ≠ 0) (entry : List FileName) :
    ∀ c ∈ fullPath root entry, c ≠ 0 := by
  induction entry with
  | nil => exact noNul
  | cons fn parents ih =>
    intro c member
    rw [fullPath, List.mem_append, List.mem_cons] at member
    obtain above | rfl | name := member
    · exact ih c above
    · decide
    · exact fn.noNul c name

theorem pathLen_eq {root : CharPtr} {len : Nat} (entry : List FileName) (is : len = u32 root.length) :
    pathLen len entry = u32 (fullPath root entry).length := by
  have wraps (entry : List FileName) (len : Nat) : u32 (pathLen len entry) = u32 (len + (fullPath [] entry).length) := by
    induction entry generalizing len with
    | nil => rfl
    | cons fn parents ih =>
      rw [pathLen, ih, length_fullPath_cons]
      unfold u32
      omega
  have small (entry : List FileName) (len : Nat) (lt : len < 2 ^ 32) : pathLen len entry < 2 ^ 32 := by
    induction entry generalizing len with
    | nil => exact lt
    | cons fn parents ih => exact ih _ (Nat.mod_lt _ (by decide))
  have lt : len < 2 ^ 32 := by
    rw [is]
    exact Nat.mod_lt _ (by decide)
  have kept : u32 (pathLen len entry) = pathLen len entry := Nat.mod_eq_of_lt (small entry len lt)
  rw [← kept, wraps, length_fullPath root entry, is]
  unfold u32
  omega

section

variable {size : Nat} {root : CharPtr}

theorem putNames_some (result : CharBuffer size) (entry : List FileName) (small : size < 2 ^ 32)
    (fits : (fullPath root entry).length ≤ size) :
    ∃ b, putNames result (fullPath root entry).length entry = some b ∧
      b.chars = result.chars.take root.length ++
        (fullPath [] entry ++ result.chars.drop (fullPath root entry).length) := by
  induction entry generalizing result with
  | nil => exact ⟨result, rfl, by rw [fullPath, fullPath, List.nil_append, List.take_append_drop]⟩
  | cons fn parents ih =>
    have length := length_fullPath_cons root fn parents
    have base := length_fullPath root parents
    have back : u32 ((fullPath root (fn :: parents)).length + (2 ^ 32 - (fn.chars.length + 1))) =
        (fullPath root parents).length := by
      unfold u32
      omega
    have next : u32 ((fullPath root parents).length + 1) = (fullPath root parents).length + 1 :=
      Nat.mod_eq_of_lt (by omega)
    obtain ⟨named, puts, namedChars⟩ := result.putAll_some (i := (fullPath root parents).length + 1) fn.chars (by omega)
    obtain ⟨slashed, put, slashedChars⟩ := named.put_some (i := (fullPath root parents).length) slash (by omega)
    obtain ⟨b, above, chars⟩ := ih slashed (by omega)
    refine ⟨b, ?_, ?_⟩
    · rw [putNames]
      simp only [back, next, puts, put]
      exact above
    · have place : (fullPath root parents).length + 1 ≤ result.chars.length := by
        rw [result.sized]
        omega
      have front := CharBuffer.take_of_front namedChars place (Nat.le_succ _)
      have behind : named.chars.drop ((fullPath root parents).length + 1) =
          fn.chars ++ result.chars.drop (fullPath root (fn :: parents)).length := by
        rw [CharBuffer.drop_of_front namedChars place, length, Nat.add_assoc, Nat.add_comm 1]
      rw [front, behind] at slashedChars
      rw [chars, CharBuffer.take_of_front slashedChars (by omega) (by omega),
        CharBuffer.drop_of_front slashedChars (by omega),
        show fullPath [] (fn :: parents) = fullPath [] parents ++ slash :: fn.chars from rfl, List.append_assoc]
      rfl

theorem putNames_none (result : CharBuffer size) (entry : List FileName) (small : size + filesystemMaxNameLen ≤ 2 ^ 32)
    (start : root.length < 2 ^ 32) (far : 2 ^ 32 ≤ (fullPath root entry).length) :
    putNames result (u32 (fullPath root entry).length) entry = none := by
  induction entry generalizing result with
  | nil => exact absurd far (by rw [fullPath]; omega)
  | cons fn parents ih =>
    have length := length_fullPath_cons root fn parents
    have short := fn.short
    have maxName : filesystemMaxNameLen = 32 := rfl
    have back : u32 (u32 (fullPath root (fn :: parents)).length + (2 ^ 32 - (fn.chars.length + 1))) =
        u32 (fullPath root parents).length := by
      unfold u32
      omega
    rw [putNames]
    simp only [back]
    cases result.putAll (u32 (u32 (fullPath root parents).length + 1)) fn.chars with
    | none => rfl
    | some named =>
      by_cases still : 2 ^ 32 ≤ (fullPath root parents).length
      · cases put : named.put (u32 (fullPath root parents).length) slash with
        | none => simp only [put]
        | some slashed =>
          simp only [put]
          exact ih slashed still
      · have place : u32 (fullPath root parents).length = (fullPath root parents).length :=
          Nat.mod_eq_of_lt (by omega)
        simp only [place, CharBuffer.put_none (show size ≤ (fullPath root parents).length by omega)]

theorem makePath_some (result : CharBuffer size) (entry : List FileName) (noNul : ∀ c ∈ root, c ≠ 0)
    (small : size < 2 ^ 32) (fits : (fullPath root entry).length < size) :
    ∃ b, makePath root result entry = some b ∧ b.text = fullPath root entry := by
  have base := length_fullPath root entry
  have len : pathLen root.length entry = (fullPath root entry).length := by
    rw [pathLen_eq entry (Nat.mod_eq_of_lt (by omega)).symm]
    exact Nat.mod_eq_of_lt (by omega)
  obtain ⟨ended, put, endedChars⟩ := result.put_some (i := (fullPath root entry).length) 0 fits
  obtain ⟨named, names, namedChars⟩ := @putNames_some _ root ended entry small (by omega)
  obtain ⟨b, puts, chars⟩ := named.putAll_some (i := 0) root (by omega)
  have inResult : (fullPath root entry).length ≤ result.chars.length := by
    rw [result.sized]
    omega
  have inEnded : root.length ≤ ended.chars.length := by
    rw [ended.sized]
    omega
  have string : b.chars = fullPath root entry ++ 0 :: result.chars.drop ((fullPath root entry).length + 1) := by
    rw [chars, Nat.zero_add, CharBuffer.drop_of_front namedChars inEnded,
      CharBuffer.drop_of_front endedChars inResult, List.take_zero, List.nil_append, ← List.append_assoc,
      ← fullPath_eq]
  refine ⟨b, ?_, CharBuffer.text_eq string (fullPath_noNul noNul entry)⟩
  simp only [makePath, len, put, names, puts]

theorem makePath_none (result : CharBuffer size) (entry : List FileName)
    (small : size + filesystemMaxNameLen ≤ 2 ^ 32) (start : root.length < 2 ^ 32)
    (large : size ≤ (fullPath root entry).length) : makePath root result entry = none := by
  have len : pathLen root.length entry = u32 (fullPath root entry).length :=
    pathLen_eq entry (Nat.mod_eq_of_lt start).symm
  rw [makePath]
  simp only [len]
  by_cases far : 2 ^ 32 ≤ (fullPath root entry).length
  · cases result.put (u32 (fullPath root entry).length) 0 with
    | none => rfl
    | some ended => simp only [putNames_none ended entry small start far]
  · have place : u32 (fullPath root entry).length = (fullPath root entry).length := Nat.mod_eq_of_lt (by omega)
    simp only [place, CharBuffer.put_none large]

end

theorem makePath_iff (p : MachinePaths) (entry : List FileName) :
    (∃ workPath, makePath p.directory.text p.workPath entry = some workPath ∧
        workPath.text = fullPath p.directory.text entry) ↔
      (fullPath p.directory.text entry).length ≤ filesystemMaxPathLen := by
  have size : filesystemMaxPathLen = 256 ∧ filesystemMaxNameLen = 32 := ⟨rfl, rfl⟩
  have root := p.directory.text_length_le
  constructor
  · rintro ⟨workPath, made, -⟩
    by_contra large
    rw [makePath_none p.workPath entry (by omega) (by omega) (by omega)] at made
    cases made
  · intro fits
    exact makePath_some p.workPath entry p.directory.text_noNul (by omega) (by omega)

theorem takeFsName_iff {size : Nat} (fsName : CharBuffer size) {i : Nat} {path : List Byte} (inside : i < size)
    (ends : (path.takeWhile fun c => c != 0 && c != slash).length + i < size →
      (path.takeWhile fun c => c != 0 && c != slash).length < path.length) :
    (∃ b, takeFsName fsName i path = some b) ↔
      (path.takeWhile fun c => c != 0 && c != slash).length + i < size := by
  induction path generalizing fsName i with
  | nil =>
    refine iff_of_false ?_ fun room => absurd (ends room) (by simp)
    rintro ⟨b, taken⟩
    cases taken
  | cons c rest ih =>
    obtain ⟨b, put, -⟩ := fsName.put_some c inside
    rw [takeFsName]
    simp only [put]
    by_cases stop : c = 0 ∨ c = slash
    · have none : (c :: rest).takeWhile (fun c => c != 0 && c != slash) = [] :=
        List.takeWhile_cons_of_neg (by obtain rfl | rfl := stop <;> decide)
      obtain ⟨b', put', -⟩ := b.put_some 0 inside
      rw [if_pos stop, none]
      exact iff_of_true ⟨b', put'⟩ (by simpa using inside)
    · have kept : (c :: rest).takeWhile (fun c => c != 0 && c != slash) =
          c :: rest.takeWhile (fun c => c != 0 && c != slash) := by
        rw [not_or] at stop
        exact List.takeWhile_cons_of_pos (by simpa using stop)
      rw [if_neg stop, kept, List.length_cons, Nat.add_right_comm, Nat.add_assoc]
      rw [kept, List.length_cons, List.length_cons] at ends
      by_cases more : i + 1 < size
      · exact ih b more fun room => by
          have longer := ends (by omega)
          omega
      · refine iff_of_false ?_ (by omega)
        rintro ⟨b', taken⟩
        cases rest with
        | nil => cases taken
        | cons d rest =>
          rw [takeFsName, CharBuffer.put_none (by omega)] at taken
          cases taken

theorem paths_setPaths (co : CopyObj) (m : Machine) (p : MachinePaths) : (co.setPaths m p).paths m = p := by
  cases m <;> rfl

theorem stays_iff (fsName : CharBuffer (filesystemMaxNameLen + 1)) (co : CopyObj) (event : CopyEvent) :
    Stays fsName co event ↔ Fits co event := by
  cases event with
  | enterDir m name opened =>
    rw [Fits, ← makePath_iff, Stays]
    simp only [step]
    constructor
    · rintro ⟨co', made, text⟩
      split at made
      · cases made
      · rename_i workPath path
        obtain rfl := Option.some.inj made
        rw [paths_setPaths] at text
        exact ⟨workPath, path, text⟩
    · rintro ⟨workPath, path, text⟩
      rw [path]
      exact ⟨_, rfl, by rw [paths_setPaths, text]⟩
  | openFile m name =>
    rw [Fits, ← makePath_iff, Stays]
    simp only [step]
    constructor
    · rintro ⟨co', made, text⟩
      split at made
      · cases made
      · rename_i workPath path
        obtain rfl := Option.some.inj made
        rw [paths_setPaths] at text
        exact ⟨workPath, path, text⟩
    · rintro ⟨workPath, path, text⟩
      rw [path]
      exact ⟨_, rfl, by rw [paths_setPaths, text]⟩
  | exitDir m => exact iff_of_true ⟨_, rfl, trivial⟩ trivial
  | fails m =>
    have size : filesystemMaxNameLen = 32 ∧ ((co.paths m).workPath.chars.drop 1).length = 256 :=
      ⟨rfl, by rw [List.length_drop, (co.paths m).workPath.sized]; rfl⟩
    have taken := @takeFsName_iff _ fsName 0 ((co.paths m).workPath.chars.drop 1) (Nat.succ_pos _) (by omega)
    rw [Fits, component, ← Nat.lt_succ_iff, ← Nat.add_zero (List.length _), ← taken, Stays]
    simp only [step]
    constructor
    · rintro ⟨co', named, -⟩
      split at named
      · cases named
      · rename_i b name
        exact ⟨b, name⟩
    · rintro ⟨b, name⟩
      rw [name]
      exact ⟨co, rfl, trivial⟩
  | performCopy destinationDir =>
    obtain ⟨co', init, text⟩ := initWriterMachine_some co destinationDir
    exact iff_of_true ⟨co', init, text⟩ trivial

def stepOn (fsName : CharBuffer (filesystemMaxNameLen + 1)) (co : Option CopyObj) (event : CopyEvent) :
    Option CopyObj :=
  co.bind fun co => step fsName co event

end Portfolio.FsUtils
