import Portfolio.Acrobat.DirectoryOps
import Portfolio.Lib.Run

set_option autoImplicit false

namespace Portfolio.Acrobat

open Portfolio.Lib

def fold (name : Name) : Name := name.map lowerCase

theorem sameName_iff_fold {a b : Name} : sameName a b = true ↔ fold a = fold b := sameName_iff

structure Tree where
  place : BlockNum → Option (BlockNum × Name)
  isDir : BlockNum → Bool

namespace Tree

open Classical in
noncomputable def step (fs : AcroFS) (t : Tree) : DirOp → Tree
  | .add name dir fileType choice _ =>
    if t.isDir dir = true ∧ (choice < fs.volumeBlockCount ∧ t.place choice = none) ∧
        ∀ b, t.place b ≠ some (dir, fold name) then
      { place := Function.update t.place choice (some (dir, fold name))
        isDir := Function.update t.isDir choice (fileType = FILE_TYPE_DIRECTORY) }
    else t
  | .deleteFile file =>
    if t.isDir file = false ∧ ∃ dir name, t.place file = some (dir, name) ∧ dir ≠ NULL_BLOCKNUM then
      { place := Function.update t.place file none, isDir := Function.update t.isDir file false }
    else t
  | .deleteDir file =>
    if t.isDir file = true ∧ (∀ b name, t.place b ≠ some (file, name)) ∧
        ∃ dir name, t.place file = some (dir, name) ∧ dir ≠ NULL_BLOCKNUM then
      { place := Function.update t.place file none, isDir := Function.update t.isDir file false }
    else t
  | .rename file filename _ =>
    match t.place file with
    | none => t
    | some (dir, _) =>
      if dir ≠ NULL_BLOCKNUM ∧ ∀ b, b ≠ file → t.place b ≠ some (dir, fold filename) then
        { t with place := Function.update t.place file (some (dir, fold filename)) }
      else t

end Tree

namespace Blocks

def tree (s : Blocks) : Tree where
  place b := (s.header b).map fun entry => (entry.2, fold entry.1)
  isDir b := (s.hashTable b).isSome

variable {fs : AcroFS} {s s' : Blocks} {b dir par file choice : BlockNum} {name filename : Name}
  {fileType : BitVec 32} {now : Nat} {table : Nat → BlockNum}

theorem place_eq_some {folded : Name} : s.tree.place b = some (dir, folded) ↔
    ∃ other, s.header b = some (other, dir) ∧ fold other = folded := by
  rw [tree, Option.map_eq_some_iff]
  constructor
  · rintro ⟨⟨other, d⟩, found, same⟩
    cases same
    exact ⟨other, found, rfl⟩
  · rintro ⟨other, found, rfl⟩
    exact ⟨_, found, rfl⟩

theorem place_eq_none : s.tree.place b = none ↔ s b = none := by
  simp [tree, header]

theorem tree_eq {place : BlockNum → Option (BlockNum × Name)} {isDir : BlockNum → Bool}
    (places : ∀ b, (s.header b).map (fun entry => (entry.2, fold entry.1)) = place b)
    (dirs : ∀ b, (s.hashTable b).isSome = isDir b) : s.tree = ⟨place, isDir⟩ := by
  rw [tree, Tree.mk.injEq]
  exact ⟨funext places, funext dirs⟩

theorem storedName_of_fits (fits : name.length < FILESYSTEM_MAX_NAME_LEN) :
    storedName name = name := by
  rw [storedName, List.take_of_length_le]
  exact Nat.le_sub_one_of_lt fits

theorem step_ok {op : DirOp} (done : s.request fs op = .ok s') : s.step fs op = s' := by
  rw [step, done]

theorem step_err {op : DirOp} {error : FileErr} (refused : s.request fs op = .err error) :
    s.step fs op = s := by
  rw [step, refused]

variable (s file) in
theorem hashTable_free : hashTable (Function.update s file none) =
    Function.update s.hashTable file none := by
  funext d
  by_cases same : d = file
  · simp [hashTable, same]
  · rw [hashTable_update same, Function.update_of_ne same]

theorem next_of_free (free : s b = none) : s.next b = NULL_BLOCKNUM := by simp [next, free]

namespace Chained

theorem childless_file (chained : Chained fs s none) (file : s.hashTable b = none)
    (inVolume : b < fs.volumeBlockCount) (c : BlockNum) (other : Name) :
    s.header c ≠ some (other, b) := by
  intro found
  rcases chained.inDirectory c other b found with root | directory
  · exact absurd (lt_of_lt_of_le inVolume fs.addressable) (by rw [root]; exact lt_irrefl _)
  · rw [file] at directory
    cases directory

theorem childless_dir (chained : Chained fs s none) (directory : s.hashTable dir = some table)
    (empty : ∀ indx < maxDirblockEntries fs, table indx = NULL_BLOCKNUM) (c : BlockNum)
    (other : Name) : s.header c ≠ some (other, dir) := by
  intro found
  obtain ⟨entries, hash⟩ := chained.chains dir table directory _ (hashName_lt fs other)
  have member := (hash.member c).mpr ⟨by simp, other, found, rfl⟩
  cases entries with
  | nil => cases member
  | cons d entries =>
    obtain ⟨first, ne, -⟩ := hash.chain
    exact ne (first.symm.trans (empty _ (hashName_lt fs other)))

variable (name fileType now) in
theorem allocated (chained : Chained fs s none) (directory : (s.hashTable dir).isSome)
    (inVolume : choice < fs.volumeBlockCount) (free : s choice = none) :
    Chained fs (Function.update s choice (some (newEntry name dir fileType now))) (some choice) := by
  have untabled : s.hashTable choice = none := by simp [hashTable, free]
  have links : next (Function.update s choice (some (newEntry name dir fileType now))) = s.next := by
    rw [next_update, Function.update_eq_self_iff, next_of_free free]
    rfl
  refine chained.revise (.inr ⟨rfl, by simp [header, free]⟩) (header_update _ _ _) links
    (fun d table found => ?_) (fun d there => ?_) inVolume (.inr ?_)
  · by_cases same : d = choice
    · subst same
      refine .inr ⟨rfl, ?_, chained.childless_file untabled inVolume⟩
      by_cases isDir : fileType = FILE_TYPE_DIRECTORY <;>
        simp [hashTable, newEntry, isDir] at found
      exact found.symm
    · exact .inl (by rwa [hashTable_update same] at found)
  · rw [hashTable_update]
    · exact there
    · rintro rfl
      simp [untabled] at there
  · rw [hashTable_update]
    · exact directory
    · intro same
      change dir = choice at same
      rw [same, untabled] at directory
      cases directory

theorem add (chained : Chained fs s none) (fits : name.length < FILESYSTEM_MAX_NAME_LEN) :
    Chained fs (s.step fs (.add name dir fileType choice now)) none ∧
      (s.step fs (.add name dir fileType choice now)).tree =
        s.tree.step fs (.add name dir fileType choice now) := by
  have requested : s.request fs (.add name dir fileType choice now) =
      if (s.hashTable dir).isSome then addFileOrDir fs s name dir fileType choice now
      else .err (if (s dir).isNone then .damaged else .notADirectory) := by
    cases live : s dir with
    | none => simp [request, live, hashTable]
    | some deh => cases found : s.hashTable dir <;> simp [request, live, found]
  by_cases directory : (s.hashTable dir).isSome = true
  · rw [if_pos directory] at requested
    by_cases free : choice < fs.volumeBlockCount ∧ s choice = none
    · have loose := chained.allocated name fileType now directory
        free.1 free.2
      have apart : dir ≠ choice := by
        rintro rfl
        simp [hashTable, free.2] at directory
      obtain ⟨table, found⟩ := Option.isSome_iff_exists.mp directory
      have stored := storedName_of_fits fits
      have linked : addFileOrDir fs s name dir fileType choice now = linkDirEntry fs
          (Function.update s choice (some (newEntry name dir fileType now))) dir choice := by
        simp [addFileOrDir, allocAcroBlock, free]
      have entry : header (Function.update s choice (some (newEntry name dir fileType now))) choice =
          some (name, dir) := by
        simp [header_update, newEntry, stored]
      have others : ∀ b, b ≠ choice →
          header (Function.update s choice (some (newEntry name dir fileType now))) b =
            s.header b := fun b ne => by rw [header_update, Function.update_of_ne ne]
      by_cases used : ∃ b other, s.header b = some (other, dir) ∧ sameName other name = true
      · obtain ⟨b, other, found', same⟩ := used
        have ne : b ≠ choice := by
          rintro rfl
          simp [header, free.2] at found'
        rw [linked, loose.link_duplicate entry (by rwa [hashTable_update apart])
          (by rwa [others b ne]) ne same] at requested
        rw [step_err requested, Tree.step, if_neg]
        · exact ⟨chained, rfl⟩
        · rintro ⟨-, -, unused⟩
          exact unused b (place_eq_some.mpr ⟨other, found', sameName_iff_fold.mp same⟩)
      · obtain ⟨s', done, after, same⟩ := loose.link entry (by rwa [hashTable_update apart])
          (by simp [next_update, newEntry]) fun b other found' ne => by
            rw [others b ne] at found'
            exact Bool.eq_false_iff.mpr fun same => used ⟨b, other, found', same⟩
        rw [linked, done] at requested
        rw [step_ok requested, Tree.step, if_pos]
        · refine ⟨after, tree_eq (fun b => ?_) fun b => ?_⟩
          · rw [same.header]
            by_cases here : b = choice
            · subst here
              rw [entry, Function.update_self, Option.map_some]
            · rw [others b here, Function.update_of_ne here]
              rfl
          · rw [same.dirs]
            by_cases here : b = choice
            · subst here
              by_cases isDir : fileType = FILE_TYPE_DIRECTORY <;>
                simp [hashTable, newEntry, isDir]
            · rw [hashTable_update here, Function.update_of_ne here]
              rfl
        · refine ⟨directory, ⟨free.1, place_eq_none.mpr free.2⟩, fun b placed => ?_⟩
          obtain ⟨other, found', same'⟩ := place_eq_some.mp placed
          exact used ⟨b, other, found', sameName_iff_fold.mpr same'⟩
    · have refused : addFileOrDir fs s name dir fileType choice now = .err .noSpace := by
        simp [addFileOrDir, allocAcroBlock, free]
      rw [refused] at requested
      rw [step_err requested, Tree.step, if_neg]
      · exact ⟨chained, rfl⟩
      · rintro ⟨-, ⟨inVolume, unplaced⟩, -⟩
        exact free ⟨inVolume, place_eq_none.mp unplaced⟩
  · rw [if_neg directory] at requested
    rw [step_err requested, Tree.step, if_neg]
    · exact ⟨chained, rfl⟩
    · rintro ⟨isDir, -⟩
      exact directory isDir

theorem deleteDirEntry (chained : Chained fs s none) (found : s.header file = some (name, par))
    (inside : par ≠ NULL_BLOCKNUM) (childless : ∀ c other, s.header c ≠ some (other, file)) :
    ∃ s', s.deleteDirEntry fs file = .ok s' ∧ Chained fs s' none ∧
      s'.tree = ⟨Function.update s.tree.place file none, Function.update s.tree.isDir file false⟩ := by
  obtain ⟨deh, live, -, parent⟩ := exists_of_header found
  obtain ⟨s₁, unlinked, loose, same, -⟩ := chained.unlink found inside
  have header := header_update s₁ file none
  have tables := hashTable_free s₁ file
  refine ⟨Function.update s₁ file none, ?_, ?_, tree_eq (fun b => ?_) fun b => ?_⟩
  · simp only at parent
    simp [Blocks.deleteDirEntry, live, parent, inside, unlinked]
  · refine loose.free (fun c other => ?_) header next_update tables
    rw [same.header]
    exact childless c other
  · rw [header, same.header]
    by_cases here : b = file
    · simp [here]
    · rw [Function.update_of_ne here, Function.update_of_ne here]
      rfl
  · rw [tables]
    by_cases here : b = file
    · simp [here]
    · rw [Function.update_of_ne here, Function.update_of_ne here, same.dirs]
      rfl

variable (fs) in
theorem delete_refused (absent : ¬∃ dir name, s.tree.place file = some (dir, name) ∧
    dir ≠ NULL_BLOCKNUM) : ∃ error, s.deleteDirEntry fs file = .err error := by
  unfold Blocks.deleteDirEntry
  cases live : s file with
  | none => exact ⟨_, rfl⟩
  | some deh =>
    by_cases root : deh.parent = NULL_BLOCKNUM
    · exact ⟨.paramError, by simp [root]⟩
    · exact absurd ⟨deh.parent, fold deh.name,
        place_eq_some.mpr ⟨deh.name, header_of_live live, rfl⟩, root⟩ absent

theorem deleteFile (chained : Chained fs s none) :
    Chained fs (s.step fs (.deleteFile file)) none ∧
      (s.step fs (.deleteFile file)).tree = s.tree.step fs (.deleteFile file) := by
  by_cases isDir : (s.hashTable file).isSome = true
  · have requested : s.request fs (.deleteFile file) = .err .notAFile := by
      rw [request, if_pos isDir]
    rw [step_err requested, Tree.step, if_neg]
    · exact ⟨chained, rfl⟩
    · rintro ⟨isFile, -⟩
      exact absurd isDir (Bool.eq_false_iff.mp isFile)
  · have requested : s.request fs (.deleteFile file) = s.deleteDirEntry fs file := by
      rw [request, if_neg isDir]
    by_cases present : ∃ dir name, s.tree.place file = some (dir, name) ∧ dir ≠ NULL_BLOCKNUM
    · obtain ⟨dir, folded, placed, inside⟩ := present
      obtain ⟨name, found, -⟩ := place_eq_some.mp placed
      obtain ⟨s', done, after, tree⟩ := chained.deleteDirEntry found inside
        (chained.childless_file (Option.not_isSome_iff_eq_none.mp isDir)
          (chained.inVolume file _ found))
      rw [step_ok (requested.trans done), Tree.step, if_pos]
      · exact ⟨after, tree⟩
      · exact ⟨Bool.eq_false_iff.mpr isDir, dir, folded, placed, inside⟩
    · obtain ⟨error, refused⟩ := delete_refused fs present
      rw [step_err (requested.trans refused), Tree.step, if_neg]
      · exact ⟨chained, rfl⟩
      · rintro ⟨-, there⟩
        exact present there

theorem deleteDir (chained : Chained fs s none) :
    Chained fs (s.step fs (.deleteDir file)) none ∧
      (s.step fs (.deleteDir file)).tree = s.tree.step fs (.deleteDir file) := by
  cases directory : s.hashTable file with
  | none =>
    have requested : s.request fs (.deleteDir file) =
        .err (if (s file).isNone then .damaged else .notADirectory) := by
      cases live : s file <;> simp [request, live, directory]
    rw [step_err requested, Tree.step, if_neg]
    · exact ⟨chained, rfl⟩
    · rintro ⟨isDir, -⟩
      simp [tree, directory] at isDir
  | some table =>
    obtain ⟨deh, live⟩ : ∃ deh, s file = some deh := by
      cases live : s file with
      | none => simp [hashTable, live] at directory
      | some deh => exact ⟨deh, rfl⟩
    have requested : s.request fs (.deleteDir file) =
        if (List.range (maxDirblockEntries fs)).any fun i => table i ≠ NULL_BLOCKNUM then
          .err .dirNotEmpty
        else s.deleteDirEntry fs file := by
      simp only [request, live, directory, deleteDirectory, Option.isNone_some, Bool.false_eq_true,
        if_false]
    by_cases used : ((List.range (maxDirblockEntries fs)).any fun i =>
        table i ≠ NULL_BLOCKNUM) = true
    · rw [if_pos used] at requested
      rw [step_err requested, Tree.step, if_neg]
      · exact ⟨chained, rfl⟩
      · rintro ⟨-, childless, -⟩
        -- the head of a chain that is not empty is an entry of the directory
        obtain ⟨indx, bound, head⟩ := List.any_eq_true.mp used
        obtain ⟨entries, hash⟩ :=
          chained.chains file table directory indx (List.mem_range.mp bound)
        obtain ⟨rest, rfl, -⟩ := hash.chain.exists_cons (by simpa using head)
        obtain ⟨name, found, -⟩ := hash.live (b := table indx) (by simp)
        exact childless _ _ (place_eq_some.mpr ⟨name, found, rfl⟩)
    · rw [if_neg used] at requested
      have childless := chained.childless_dir directory fun indx bound => by
        by_contra ne
        exact used (List.any_eq_true.mpr ⟨indx, List.mem_range.mpr bound, by simpa using ne⟩)
      by_cases present : ∃ dir name, s.tree.place file = some (dir, name) ∧ dir ≠ NULL_BLOCKNUM
      · obtain ⟨dir, folded, placed, inside⟩ := present
        obtain ⟨name, found, -⟩ := place_eq_some.mp placed
        obtain ⟨s', done, after, tree'⟩ := chained.deleteDirEntry found inside childless
        rw [step_ok (requested.trans done), Tree.step, if_pos]
        · exact ⟨after, tree'⟩
        · refine ⟨by simp [tree, directory], fun b name placed => ?_, dir, folded, placed, inside⟩
          obtain ⟨other, found', -⟩ := place_eq_some.mp placed
          exact childless b other found'
      · obtain ⟨error, refused⟩ := delete_refused fs present
        rw [step_err (requested.trans refused), Tree.step, if_neg]
        · exact ⟨chained, rfl⟩
        · rintro ⟨-, -, there⟩
          exact present there

variable (filename) in
theorem setName (loose : Chained fs s (some file)) (found : s.header file = some (name, par)) :
    Chained fs (s.setName file filename) (some file) ∧
      (s.setName file filename).header = Function.update s.header file (some (filename, par)) ∧
      (s.setName file filename).next = s.next ∧
      (s.setName file filename).hashTable = s.hashTable := by
  obtain ⟨deh, live, -, parent⟩ := exists_of_header found
  simp only at parent
  have header : (s.setName file filename).header =
      Function.update s.header file (some (filename, par)) := by
    rw [Blocks.setName, header_update, live, ← parent]
    rfl
  have links : (s.setName file filename).next = s.next := by
    rw [Blocks.setName, next_update, Function.update_eq_self_iff, next_of_live live, live]
    rfl
  have tables : (s.setName file filename).hashTable = s.hashTable := by
    funext d
    by_cases same : d = file
    · simp [Blocks.setName, hashTable, same, live]
    · exact hashTable_update same
  refine ⟨loose.revise (.inl rfl) header links (fun d table there => .inl (by rwa [tables] at there))
    (fun d there => by rwa [tables]) (loose.inVolume file _ found) ?_, header, links, tables⟩
  rw [tables]
  exact loose.inDirectory file name par found

variable (file now) in
theorem setModDate (chained : Chained fs s none) :
    Chained fs (s.setModDate file now) none ∧ (s.setModDate file now).tree = s.tree := by
  have header : (s.setModDate file now).header = s.header := by
    rw [Blocks.setModDate, header_update, Function.update_eq_self_iff, Option.map_map]
    rfl
  have links : (s.setModDate file now).next = s.next := by
    rw [Blocks.setModDate, next_update, Function.update_eq_self_iff, Option.map_map]
    cases live : s file <;> simp [next, live]
  have tables : (s.setModDate file now).hashTable = s.hashTable := by
    funext d
    by_cases same : d = file
    · cases live : s file <;> simp [Blocks.setModDate, hashTable, same, live]
    · exact hashTable_update same
  refine ⟨chained.relink ⟨header, fun d => by rw [tables]⟩ (fun d table there indx bound => ?_)
    chained.names, by rw [tree, header, tables]; rfl⟩
  rw [tables] at there
  obtain ⟨entries, hash⟩ := chained.chains d table there indx bound
  exact ⟨entries, hash.congr (fun _ _ => by rw [links]) fun _ => enters_congr header⟩

end Chained

def Orderly (s : Blocks) : DirOp → Prop
  | .add name .. => name.length < FILESYSTEM_MAX_NAME_LEN
  | .rename file filename _ => filename.length < FILESYSTEM_MAX_NAME_LEN ∧
      ∀ deh, s file = some deh → deh.parent ≠ NULL_BLOCKNUM →
        (∀ b other, b ≠ file → s.header b = some (other, deh.parent) →
          sameName other filename = false) → deh.nextDirEntry = NULL_BLOCKNUM
  | _ => True

namespace Chained

theorem rename (chained : Chained fs s none) (orderly : s.Orderly (.rename file filename now)) :
    Chained fs (s.step fs (.rename file filename now)) none ∧
      (s.step fs (.rename file filename now)).tree =
        s.tree.step fs (.rename file filename now) := by
  obtain ⟨fits, last⟩ := orderly
  cases live : s file with
  | none =>
    have requested : s.request fs (.rename file filename now) = .err .damaged := by
      rw [request, live]
    have placed : s.tree.place file = none := place_eq_none.mpr live
    rw [step_err requested, Tree.step, placed]
    exact ⟨chained, rfl⟩
  | some deh =>
    have found := header_of_live live
    have placed : s.tree.place file = some (deh.parent, fold deh.name) :=
      place_eq_some.mpr ⟨deh.name, found, rfl⟩
    by_cases root : deh.parent = NULL_BLOCKNUM
    · have requested : s.request fs (.rename file filename now) = .ok s := by
        simp only [request, live, if_pos root]
      rw [step_ok requested, Tree.step, placed]
      simp only [root, ne_eq, not_true_eq_false, false_and, if_false]
      exact ⟨chained, trivial⟩
    · obtain ⟨s₁, unlinked, loose, same, link⟩ := chained.unlink found root
      have found₁ : s₁.header file = some (deh.name, deh.parent) := by rw [same.header, found]
      obtain ⟨loose₂, header₂, links₂, tables₂⟩ := loose.setName filename found₁
      obtain ⟨table, directory⟩ := Option.isSome_iff_exists.mp
        ((loose.inDirectory file deh.name deh.parent found₁).resolve_left root)
      have directory₂ := (congrFun tables₂ deh.parent).trans directory
      have entry₂ := (congrFun header₂ file).trans (Function.update_self ..)
      have others : ∀ b, b ≠ file → (s₁.setName file filename).header b = s.header b := by
        intro b ne
        rw [header₂, Function.update_of_ne ne, same.header]
      by_cases used : ∃ b other, b ≠ file ∧ s.header b = some (other, deh.parent) ∧
          sameName other filename = true
      · obtain ⟨b, other, ne, found', same'⟩ := used
        have duplicate := loose₂.link_duplicate entry₂ directory₂
          ((others b ne).trans found') ne same'
        have requested : s.request fs (.rename file filename now) = .err .duplicateFile := by
          simp only [request, live, if_neg root, renameEntry, unlinked,
            storedName_of_fits fits, duplicate]
        rw [step_err requested, Tree.step, placed]
        refine ⟨chained, (if_neg ?_).symm⟩
        rintro ⟨-, unused⟩
        exact unused b ne (place_eq_some.mpr ⟨other, found', sameName_iff_fold.mp same'⟩)
      · have fresh : ∀ b other, b ≠ file → s.header b = some (other, deh.parent) →
            sameName other filename = false := fun b other ne found' =>
          Bool.eq_false_iff.mpr fun same' => used ⟨b, other, ne, found', same'⟩
        have ends : s₁.next file = NULL_BLOCKNUM := by
          rw [link, next_of_live live]
          exact last deh live root fresh
        obtain ⟨s₃, done, after, same₃⟩ := loose₂.link entry₂ directory₂
          ((congrFun links₂ file).trans ends) fun b other found' ne =>
            fresh b other ne ((others b ne).symm.trans found')
        obtain ⟨after', tree'⟩ := after.setModDate file now
        have requested : s.request fs (.rename file filename now) =
            .ok (s₃.setModDate file now) := by
          simp only [request, live, if_neg root, renameEntry, unlinked,
            storedName_of_fits fits, done]
        rw [step_ok requested, Tree.step, placed]
        refine ⟨after', tree'.trans ?_⟩
        simp only
        rw [if_pos]
        · refine tree_eq (fun b => ?_) fun b => ?_
          · rw [same₃.header]
            by_cases here : b = file
            · rw [here, entry₂, Function.update_self]
              rfl
            · rw [others b here, Function.update_of_ne here]
              rfl
          · rw [same₃.dirs, tables₂, same.dirs]
            rfl
        · refine ⟨root, fun b ne placed => ?_⟩
          obtain ⟨other, found', same'⟩ := place_eq_some.mp placed
          exact used ⟨b, other, ne, found', sameName_iff_fold.mpr same'⟩

theorem step (chained : Chained fs s none) {op : DirOp} (orderly : s.Orderly op) :
    Chained fs (s.step fs op) none ∧ (s.step fs op).tree = s.tree.step fs op := by
  cases op with
  | add name dir fileType choice now => exact chained.add orderly
  | deleteFile file => exact chained.deleteFile
  | deleteDir file => exact chained.deleteDir
  | rename file filename now => exact chained.rename orderly

end Chained

end Blocks

end Portfolio.Acrobat
