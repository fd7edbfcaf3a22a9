import Portfolio.File.FileSearch

set_option autoImplicit false

namespace Portfolio.FileSearch

def Relation.Holds : Relation → Nat → Nat → Prop
  | eq, a, b => a = b
  | ne, a, b => a ≠ b
  | lt, a, b => a < b
  | gt, a, b => a > b
  | le, a, b => a ≤ b
  | ge, a, b => a ≥ b

namespace TagArg

variable (tag : TagArg)

def Meets (file : File) : Prop :=
  match tag.tag with
  | .version relation => relation.Holds file.version.toNat tag.arg
  | .revision relation => relation.Holds file.revision.toNat tag.arg
  | .verrev relation => relation.Holds file.verrev tag.arg
  | _ => True

def searches : Bool :=
  match tag.tag with
  | .searchPath | .searchFilesystems | .searchItem => true
  | _ => false

def compared : Option TagArg :=
  match tag.tag with
  | .version _ | .revision _ => some { tag with arg := tag.arg % 2 ^ 16 }
  | _ => none

def word : Nat :=
  match tag.tag with
  | .version relation =>
    searchParameters.getD (FILESEARCH_TAG_VERSION_EQ + relation.offset) 0 + (tag.arg &&& VALUE_MASK)
  | .revision relation =>
    searchParameters.getD (FILESEARCH_TAG_REVISION_EQ + relation.offset) 0 + (tag.arg &&& VALUE_MASK)
  | _ => 0

end TagArg

def Admits (tags : List TagArg) (file : File) : Prop := ∀ tag ∈ tags, tag.Meets file

def compared (tags : List TagArg) : List TagArg := tags.filterMap TagArg.compared

def firstAsked (tags : List TagArg) : Bool :=
  tags.foldl (fun asked tag => match tag.tag with
    | .findFirstMatch => true
    | .findHighestMatch => false
    | _ => asked) false

def nonversionedIgnored (tags : List TagArg) : Bool :=
  tags.foldl (fun asked tag => match tag.tag with
    | .noVersionIgnored => true
    | .noVersionIs00 => false
    | _ => asked) false

structure Trial where
  given : List TagArg
  file : FileId
  deriving DecidableEq

namespace Trial

def Satisfies (folio : FileFolio) (trial : Trial) : Prop :=
  (nonversionedIgnored trial.given = true → (folio.file trial.file).hasValidVersion = true) ∧
    Admits trial.given (folio.file trial.file)

end Trial

namespace FileFolio

variable (folio : FileFolio)

def places (tag : TagArg) (looked : Nat) : List FileId × Nat :=
  match tag.tag with
  | .searchPath => ((folio.findFile looked folio.currentDirectory tag.arg).toList, looked + 1)
  | .searchFilesystems =>
    (((folio.filesystems looked).filter fun fs => fs.exclusion &&& tag.arg = 0).map (·.rootDirectory), looked)
  | .searchItem => ((folio.acceptDirectory looked tag.arg).toOption.toList, looked)
  | _ => ([], looked)

def candidates (partialPath : Path) (places : List FileId) (looked : Nat) : List FileId :=
  (places.zipIdx looked).filterMap fun place => folio.findFile place.2 place.1 partialPath

def trialsFrom (partialPath : Path) : List TagArg → List TagArg → Nat → List Trial
  | _, [], _ => []
  | given, tag :: rest, looked =>
    let (places, searched) := folio.places tag looked
    (folio.candidates partialPath places searched).map (⟨given, ·⟩) ++
      trialsFrom partialPath (given ++ [tag]) rest (searched + places.length)

def trials (partialPath : Path) (tags : List TagArg) (looked : Nat) : List Trial :=
  folio.trialsFrom partialPath [] tags looked

end FileFolio

structure FindsBest (folio : FileFolio) (trials : List Trial) (before : FileId → Int)
    (ended : Option FileId × VersionSearch) : Prop where
  found : ∀ file, ended.1 = some file → ∃ trial ∈ trials, trial.file = file ∧ trial.Satisfies folio ∧
    (firstAsked trial.given = false →
      ∀ other ∈ trials, other.Satisfies folio → (folio.file other.file).verrev ≤ (folio.file file).verrev)
  missed : ended.1 = none → ∀ trial ∈ trials, ¬ trial.Satisfies folio
  counted : ∀ file, ended.2.useCount file = before file + if ended.1 = some file then 1 else 0

structure Heeded (tags : List TagArg) : Prop where
  /-- In front of a search tag that is reached, what is compared with is what was given. -/
  same : ∀ given tag rest, tags = given ++ tag :: rest → tag.searches = true →
    (compared given).length ≤ MAX_SEARCH_TAGS → ∀ file, Admits (compared given) file ↔ Admits given file
  /-- With constraints more than there is room for, no search that they cut short could succeed. -/
  room : MAX_SEARCH_TAGS < (compared tags).length → ∀ given tag rest, tags = given ++ tag :: rest →
    tag.searches = true → MAX_SEARCH_TAGS < (compared given).length ∨ firstAsked given = false →
      ∀ file, ¬ Admits given file
  /-- A search for the first match, behind one for the highest, could not succeed. -/
  single : ∀ given tag between later rest, tags = given ++ tag :: (between ++ later :: rest) →
    tag.searches = true → later.searches = true →
    (compared (given ++ tag :: between)).length ≤ MAX_SEARCH_TAGS → firstAsked given = false →
    firstAsked (given ++ tag :: between) = true → ∀ file, ¬ Admits (given ++ tag :: between) file

theorem value_word (param arg : Nat) (flags : param % 2 ^ 16 = 0) :
    (param + (arg &&& VALUE_MASK)) &&& VALUE_MASK = arg % 2 ^ 16 := by
  have mask : VALUE_MASK = (2 ^ 16 - 1) * 2 ^ 0 := rfl
  rw [mask, Lib.nat_and_field, Lib.nat_and_field]
  omega

theorem flag_word (param arg bit : Nat) (high : 16 ≤ bit) (flags : param % 2 ^ 16 = 0) :
    (param + (arg &&& VALUE_MASK)) &&& 2 ^ bit = param &&& 2 ^ bit := by
  obtain ⟨k, rfl⟩ := Nat.exists_eq_add_of_le high
  have mask : VALUE_MASK = (2 ^ 16 - 1) * 2 ^ 0 := rfl
  have one : 2 ^ (16 + k) = (2 ^ 1 - 1) * 2 ^ (16 + k) := by simp
  rw [one, Lib.nat_and_field, Lib.nat_and_field, mask, Lib.nat_and_field]
  have low : (param + arg / 2 ^ 0 % 2 ^ 16 * 2 ^ 0) / 2 ^ 16 = param / 2 ^ 16 := by omega
  rw [Nat.pow_add, ← Nat.div_div_eq_div_mul, ← Nat.div_div_eq_div_mul, low]

theorem rejects_word (param arg : Nat) (flags : param % 2 ^ 16 = 0) (candidate : File) :
    rejects (param + (arg &&& VALUE_MASK)) candidate =
      decide (param &&& compareMask (compareVal param candidate) (arg % 2 ^ 16) ≠ 0) := by
  have flag : ∀ bit, 16 ≤ bit → (param + (arg &&& VALUE_MASK)) &&& 2 ^ bit = param &&& 2 ^ bit :=
    fun bit high => flag_word param arg bit high flags
  have value : compareVal (param + (arg &&& VALUE_MASK)) candidate = compareVal param candidate := by
    simp only [compareVal, show VERREV = 2 ^ 30 from rfl, show REVISION = 2 ^ 31 from rfl, flag 30 (by omega),
      flag 31 (by omega)]
  have mask (value to' : Nat) :
      (param + (arg &&& VALUE_MASK)) &&& compareMask value to' = param &&& compareMask value to' := by
    unfold compareMask
    split_ifs
    · exact flag 27 (by omega)
    · exact flag 28 (by omega)
    · exact flag 29 (by omega)
  simp only [rejects, value, mask, value_word param arg flags]

def relationWord : Relation → Nat
  | .eq => REJECT_IF_GT + REJECT_IF_LT
  | .ne => REJECT_IF_EQ
  | .lt => REJECT_IF_GT + REJECT_IF_EQ
  | .gt => REJECT_IF_EQ + REJECT_IF_LT
  | .le => REJECT_IF_GT
  | .ge => REJECT_IF_LT

theorem relationWord_exact (relation : Relation) (group value to' : Nat) (high : group = 0 ∨ group = REVISION) :
    (group + relationWord relation) &&& compareMask value to' = 0 ↔ relation.Holds value to' := by
  unfold compareMask
  rcases high with rfl | rfl <;> cases relation <;> split_ifs <;>
    simp [relationWord, REVISION, REJECT_IF_LT, REJECT_IF_EQ, REJECT_IF_GT, Relation.Holds] <;> omega

namespace TagArg

theorem word_exact {tag constraint : TagArg} (kept : tag.compared = some constraint) (candidate : File) :
    rejects tag.word candidate = false ↔ constraint.Meets candidate := by
  obtain ⟨name, arg⟩ := tag
  cases name with
  | version relation =>
    obtain rfl : ⟨.version relation, arg % 2 ^ 16⟩ = constraint := by simpa [compared] using kept
    have param : searchParameters.getD (FILESEARCH_TAG_VERSION_EQ + relation.offset) 0 = 0 + relationWord relation := by
      cases relation <;> rfl
    have flags : (0 + relationWord relation) % 2 ^ 16 = 0 := by cases relation <;> rfl
    have value : compareVal (0 + relationWord relation) candidate = candidate.version.toNat := by cases relation <;> rfl
    simp only [word, param, rejects_word _ _ flags, value, decide_eq_false_iff_not, not_not]
    exact relationWord_exact relation 0 _ _ (.inl rfl)
  | revision relation =>
    obtain rfl : ⟨.revision relation, arg % 2 ^ 16⟩ = constraint := by simpa [compared] using kept
    have param : searchParameters.getD (FILESEARCH_TAG_REVISION_EQ + relation.offset) 0 =
        REVISION + relationWord relation := by
      cases relation <;> rfl
    have flags : (REVISION + relationWord relation) % 2 ^ 16 = 0 := by cases relation <;> rfl
    have value : compareVal (REVISION + relationWord relation) candidate = candidate.revision.toNat := by
      cases relation <;> rfl
    simp only [word, param, rejects_word _ _ flags, value, decide_eq_false_iff_not, not_not]
    exact relationWord_exact relation REVISION _ _ (.inr rfl)
  | _ => simp [compared] at kept

end TagArg

end Portfolio.FileSearch
