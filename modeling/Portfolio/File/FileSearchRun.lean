import Portfolio.File.FileSearchTrials

set_option autoImplicit false

namespace Portfolio.FileSearch

variable {folio : FileFolio} {given tags : List TagArg} {done : List Trial} {before : FileId → Int}
  {search : VersionSearch} {partialPath : Path}

@[simp] theorem raise_apply (useCount : FileId → Int) (file other : FileId) :
    raise useCount file other = useCount other + if other = file then 1 else 0 := by
  by_cases same : other = file <;> simp [raise, same]

@[simp] theorem lower_apply (useCount : FileId → Int) (file other : FileId) :
    lower useCount file other = useCount other - if other = file then 1 else 0 := by
  by_cases same : other = file <;> simp [lower, same]

def keeps (before : FileId → Int) (best : Option FileId) (useCount : FileId → Int) : Prop :=
  ∀ file, useCount file = before file + if best = some file then 1 else 0

theorem keeps_raise {useCount : FileId → Int} (counted : keeps before none useCount) (candidate : FileId) :
    keeps before (some candidate) (raise useCount candidate) := by
  intro file
  have count := counted file
  by_cases same : file = candidate
  · subst same
    simpa using count
  · simpa [same, Ne.symm same] using count

theorem keeps_exchange {useCount : FileId → Int} {best : FileId} (counted : keeps before (some best) useCount)
    (candidate : FileId) : keeps before (some candidate) (lower (raise useCount candidate) best) := by
  intro file
  have count := counted file
  simp only [lower_apply, raise_apply, Option.some.injEq, eq_comm] at count ⊢
  omega

structure Follows (given : List TagArg) (search : VersionSearch) : Prop where
  words : search.compareTags = (given.filter fun tag => tag.compared.isSome).map TagArg.word
  first : search.matchFirst = firstAsked given
  skip : search.skipNonversioned = nonversionedIgnored given

structure Tracks (folio : FileFolio) (before : FileId → Int) (given : List TagArg) (done : List Trial)
    (search : VersionSearch) : Prop extends Follows given search where
  counted : keeps before search.bestFound search.useCount
  missed : search.bestFound = none → ∀ trial ∈ done, ¬ trial.Satisfies folio
  found : ∀ file, search.bestFound = some file → ∃ trial ∈ done, trial.file = file ∧ trial.Satisfies folio ∧
    firstAsked trial.given = false ∧
      ∀ other ∈ done, other.Satisfies folio → (folio.file other.file).verrev ≤ (folio.file file).verrev

theorem mem_compared {tag : TagArg} : tag ∈ compared tags ↔ ∃ source ∈ tags, source.compared = some tag := by
  simp [compared]

theorem admits_append (first last : List TagArg) (file : File) :
    Admits (first ++ last) file ↔ Admits first file ∧ Admits last file := by
  simp only [Admits, List.mem_append, or_imp, forall_and]

theorem Follows.passes (follows : Follows given search) (candidate : File) :
    (search.compareTags.all fun compareTag => !rejects compareTag candidate) = true ↔
      Admits (compared given) candidate := by
  simp only [follows.words, List.all_map, List.all_filter, List.all_eq_true, Admits, mem_compared]
  constructor
  · rintro passes constraint ⟨source, member, kept⟩
    have passed := passes source member
    rw [kept] at passed
    exact (TagArg.word_exact kept candidate).mp (by simpa using passed)
  · intro meets source member
    cases kept : source.compared with
    | none => simp
    | some constraint =>
      have exact' := (TagArg.word_exact kept candidate).mpr (meets constraint ⟨source, member, kept⟩)
      simp [exact']

namespace Tracks

theorem isSuitable_iff (tracks : Tracks folio before given done search) (candidate : FileId)
    (same : ∀ file, Admits (compared given) file ↔ Admits given file) :
    search.isSuitable (folio.file candidate) = true ↔ Trial.Satisfies folio ⟨given, candidate⟩ := by
  have passed := tracks.passes (folio.file candidate)
  rw [same] at passed
  unfold VersionSearch.isSuitable Trial.Satisfies
  rw [tracks.skip]
  cases nonversionedIgnored given <;> cases (folio.file candidate).hasValidVersion <;> simp [-List.all_eq_true, passed]

theorem let_go (tracks : Tracks folio before given done search) (candidate : FileId) (looked : Nat)
    (worse : Trial.Satisfies folio ⟨given, candidate⟩ → ∃ best, search.bestFound = some best ∧
      (folio.file candidate).verrev ≤ (folio.file best).verrev) :
    Tracks folio before given (done ++ [⟨given, candidate⟩])
      { search with looked := looked, useCount := lower (raise search.useCount candidate) candidate } := by
  refine ⟨⟨tracks.words, tracks.first, tracks.skip⟩, ?_, ?_, ?_⟩
  · intro file
    have count := tracks.counted file
    simp only [lower_apply, raise_apply]
    omega
  · intro empty trial member
    rcases List.mem_append.mp member with old | new
    · exact tracks.missed empty trial old
    · obtain rfl := List.mem_singleton.mp new
      intro satisfies
      obtain ⟨best, held, -⟩ := worse satisfies
      exact absurd (held.symm.trans empty) (by simp)
  · intro file held
    obtain ⟨trial, member, same, satisfies, highest, most⟩ := tracks.found file held
    refine ⟨trial, List.mem_append_left _ member, same, satisfies, highest, ?_⟩
    intro other otherMember otherSatisfies
    rcases List.mem_append.mp otherMember with old | new
    · exact most other old otherSatisfies
    · obtain rfl := List.mem_singleton.mp new
      obtain ⟨best, bestHeld, le⟩ := worse otherSatisfies
      obtain rfl : best = file := Option.some.inj (bestHeld.symm.trans held)
      exact le

theorem replaced (tracks : Tracks folio before given done search) (candidate : FileId) (looked : Nat)
    (useCount : FileId → Int) (satisfies : Trial.Satisfies folio ⟨given, candidate⟩)
    (highest : firstAsked given = false) (counted : keeps before (some candidate) useCount)
    (better : ∀ best, search.bestFound = some best → (folio.file best).verrev < (folio.file candidate).verrev) :
    Tracks folio before given (done ++ [⟨given, candidate⟩])
      { search with bestFound := some candidate, looked := looked, useCount := useCount } := by
  refine ⟨⟨tracks.words, tracks.first, tracks.skip⟩, counted, ?_, ?_⟩
  · intro empty
    cases empty
  · intro file held
    obtain rfl : candidate = file := Option.some.inj held
    refine ⟨⟨given, candidate⟩, by simp, rfl, satisfies, highest, ?_⟩
    intro other otherMember otherSatisfies
    rcases List.mem_append.mp otherMember with old | new
    · cases best : search.bestFound with
      | none => exact absurd otherSatisfies (tracks.missed best other old)
      | some file =>
        obtain ⟨-, -, -, -, -, most⟩ := tracks.found file best
        exact Nat.le_of_lt (Nat.lt_of_le_of_lt (most other old otherSatisfies) (better file best))
    · obtain rfl := List.mem_singleton.mp new
      exact Nat.le_refl _

end Tracks

structure Stopped (folio : FileFolio) (before : FileId → Int) (given : List TagArg) (candidate : FileId)
    (search : VersionSearch) : Prop where
  best : search.bestFound = some candidate
  satisfies : Trial.Satisfies folio ⟨given, candidate⟩
  first : firstAsked given = true
  counted : keeps before (some candidate) search.useCount

def VersionSearch.holding (search : VersionSearch) (candidate : FileId) : VersionSearch :=
  { search with looked := search.looked + 1, useCount := raise search.useCount candidate }

structure Outcome (folio : FileFolio) (before : FileId → Int) (given : List TagArg) (done : List Trial)
    (search : VersionSearch) (found : List FileId) (looked : Nat) (ended : Bool × VersionSearch) : Prop where
  stopped : ended.1 = true → ∃ candidate ∈ found, Stopped folio before given candidate ended.2
  goesOn : ended.1 = false → Tracks folio before given (done ++ found.map (⟨given, ·⟩)) ended.2
  looked : ended.1 = false → ended.2.looked = looked
  kept : ended.1 = false → ended.2.matchFirst = true → ended.2.bestFound = search.bestFound

theorem Outcome.of_stopped {candidate : FileId} {looked : Nat} {ended : VersionSearch}
    (stopped : Stopped folio before given candidate ended) :
    Outcome folio before given done search [candidate] looked (true, ended) :=
  ⟨fun _ => ⟨candidate, by simp, stopped⟩, fun going => absurd going (by simp), fun going => absurd going (by simp),
    fun going => absurd going (by simp)⟩

theorem Outcome.of_tracks {candidate : FileId} {ended : VersionSearch}
    (tracks : Tracks folio before given (done ++ [⟨given, candidate⟩]) ended)
    (kept : ended.matchFirst = true → ended.bestFound = search.bestFound) :
    Outcome folio before given done search [candidate] ended.looked (false, ended) :=
  ⟨fun halt => absurd halt (by simp), fun _ => tracks, fun _ => rfl, fun _ => kept⟩

def Single (given : List TagArg) (search : VersionSearch) : Prop :=
  search.matchFirst = true → search.bestFound = none ∨ ∀ file, ¬ Admits given file

theorem judge_outcome (tracks : Tracks folio before given done search)
    (same : ∀ file, Admits (compared given) file ↔ Admits given file) (single : Single given search)
    (candidate : FileId) :
    Outcome folio before given done search [candidate] (search.looked + 1)
      ((search.holding candidate).judge folio candidate) := by
  have suitable := tracks.isSuitable_iff candidate same
  unfold VersionSearch.judge
  by_cases accepted : (search.holding candidate).isSuitable (folio.file candidate) = true
  · have satisfies := suitable.mp accepted
    by_cases first : (search.holding candidate).matchFirst = true
    · rw [if_pos accepted, if_pos first]
      have empty : search.bestFound = none := by
        rcases single first with empty | never
        · exact empty
        · exact absurd satisfies.2 (never _)
      have counted := tracks.counted
      rw [empty] at counted
      exact .of_stopped ⟨rfl, satisfies, tracks.first.symm.trans first, keeps_raise counted candidate⟩
    · rw [if_pos accepted, if_neg first]
      have highest : firstAsked given = false := by
        rw [← tracks.first]
        exact Bool.eq_false_of_not_eq_true first
      have counted := tracks.counted
      split
      next best =>
        have best : search.bestFound = none := best
        rw [best] at counted
        refine .of_tracks (tracks.replaced candidate _ _ satisfies highest (keeps_raise counted candidate) ?_) ?_
        · intro file held
          exact absurd (best.symm.trans held) (by simp)
        · exact fun asked => absurd asked first
      next file best =>
        have best : search.bestFound = some file := best
        rw [best] at counted
        split_ifs with better
        · refine .of_tracks (tracks.replaced candidate _ _ satisfies highest (keeps_exchange counted candidate) ?_) ?_
          · intro other held
            obtain rfl : file = other := Option.some.inj (best.symm.trans held)
            exact better
          · exact fun asked => absurd asked first
        · exact .of_tracks (tracks.let_go candidate _ fun _ => ⟨file, best, Nat.le_of_not_lt better⟩) fun _ => rfl
  · rw [if_neg accepted]
    exact .of_tracks (tracks.let_go candidate _ fun satisfies => absurd (suitable.mpr satisfies) accepted) fun _ => rfl

theorem lower_raise (useCount : FileId → Int) (place : FileId) : lower (raise useCount place) place = useCount := by
  funext file
  simp only [lower_apply, raise_apply]
  omega

theorem lower_around (useCount : FileId → Int) (place candidate : FileId) :
    lower (raise (raise useCount place) candidate) place = raise useCount candidate := by
  funext file
  simp only [lower_apply, raise_apply]
  omega

theorem lower_across (useCount : FileId → Int) (place candidate other : FileId) :
    lower (lower (raise (raise useCount place) candidate) other) place = lower (raise useCount candidate) other := by
  funext file
  simp only [lower_apply, raise_apply]
  omega

theorem searchWithin_eq (folio : FileFolio) (search : VersionSearch) (partialPath : Path) (place : FileId) :
    search.searchWithin folio partialPath place =
      match folio.findFile search.looked place partialPath with
      | none => (false, { search with looked := search.looked + 1 })
      | some candidate => (search.holding candidate).judge folio candidate := by
  unfold VersionSearch.searchWithin VersionSearch.performSearch VersionSearch.findFile
  cases found : folio.findFile search.looked place partialPath with
  | none => simp [lower_raise]
  | some candidate =>
    have suits : VersionSearch.isSuitable
        { search with looked := search.looked + 1, useCount := raise (raise search.useCount place) candidate }
        (folio.file candidate) = (search.holding candidate).isSuitable (folio.file candidate) := rfl
    unfold VersionSearch.judge
    cases accepted : (search.holding candidate).isSuitable (folio.file candidate) with
    | false =>
      simp only [suits, accepted, Bool.false_eq_true, if_false]
      simp only [VersionSearch.holding, lower_across]
    | true =>
      simp only [suits, accepted, if_true]
      simp only [VersionSearch.holding]
      by_cases first : search.matchFirst = true
      · simp [first, lower_around]
      · cases search.bestFound with
        | none => simp [first, lower_around]
        | some best =>
          by_cases better : (folio.file candidate).verrev > (folio.file best).verrev
          · simp [first, better, lower_across]
          · simp [first, better, lower_across]

def searchPlaces (folio : FileFolio) (partialPath : Path) : List FileId → VersionSearch → Bool × VersionSearch
  | [], search => (false, search)
  | place :: places, search =>
    match search.searchWithin folio partialPath place with
    | (true, search) => (true, search)
    | (false, search) => searchPlaces folio partialPath places search

theorem candidates_cons (folio : FileFolio) (partialPath : Path) (place : FileId) (places : List FileId)
    (looked : Nat) :
    folio.candidates partialPath (place :: places) looked =
      (folio.findFile looked place partialPath).toList ++ folio.candidates partialPath places (looked + 1) := by
  unfold FileFolio.candidates
  rw [List.zipIdx_cons, List.filterMap_cons]
  cases folio.findFile looked place partialPath <;> simp

theorem searchWithin_outcome (tracks : Tracks folio before given done search)
    (same : ∀ file, Admits (compared given) file ↔ Admits given file) (single : Single given search)
    (partialPath : Path) (place : FileId) :
    Outcome folio before given done search (folio.findFile search.looked place partialPath).toList (search.looked + 1)
      (search.searchWithin folio partialPath place) := by
  rw [searchWithin_eq]
  cases folio.findFile search.looked place partialPath with
  | none =>
    refine ⟨fun halt => absurd halt (by simp), fun _ => ?_, fun _ => rfl, fun _ _ => rfl⟩
    simpa using (⟨⟨tracks.words, tracks.first, tracks.skip⟩, tracks.counted, tracks.missed, tracks.found⟩ :
      Tracks folio before given done { search with looked := search.looked + 1 })
  | some candidate => exact judge_outcome tracks same single candidate

theorem searchPlaces_outcome (partialPath : Path) (places : List FileId)
    (same : ∀ file, Admits (compared given) file ↔ Admits given file)
    (tracks : Tracks folio before given done search) (single : Single given search) :
    Outcome folio before given done search (folio.candidates partialPath places search.looked)
      (search.looked + places.length) (searchPlaces folio partialPath places search) := by
  induction places generalizing done search with
  | nil =>
    refine ⟨fun halt => absurd halt (by simp [searchPlaces]), fun _ => ?_, fun _ => rfl, fun _ _ => rfl⟩
    simpa [FileFolio.candidates, searchPlaces] using tracks
  | cons place places ih =>
    have here := searchWithin_outcome tracks same single partialPath place
    rw [candidates_cons, searchPlaces]
    generalize search.searchWithin folio partialPath place = ended at here ⊢
    obtain ⟨halt, next⟩ := ended
    cases halt with
    | true =>
      obtain ⟨candidate, member, stopped⟩ := here.stopped rfl
      exact ⟨fun _ => ⟨candidate, List.mem_append_left _ member, stopped⟩, fun going => absurd going (by simp),
        fun going => absurd going (by simp), fun going => absurd going (by simp)⟩
    | false =>
      have looked : next.looked = search.looked + 1 := here.looked rfl
      have nextTracks := here.goesOn rfl
      have nextSingle : Single given next := by
        intro first
        have kept := here.kept rfl first
        rw [kept]
        exact single (tracks.first.trans (nextTracks.first.symm.trans first))
      have rest := ih nextTracks nextSingle
      rw [looked] at rest
      refine ⟨fun halt => ?_, fun going => ?_, fun going => ?_, fun going first => ?_⟩
      · obtain ⟨candidate, member, stopped⟩ := rest.stopped halt
        exact ⟨candidate, List.mem_append_right _ member, stopped⟩
      · simpa using rest.goesOn going
      · rw [List.length_cons, rest.looked going]
        omega
      · have restTracks := rest.goesOn going
        have firstHere : next.matchFirst = true := nextTracks.first.trans (restTracks.first.symm.trans first)
        exact (rest.kept going first).trans (here.kept rfl firstHere)

theorem searchPlaces_singleton (folio : FileFolio) (partialPath : Path) (place : FileId) (search : VersionSearch) :
    searchPlaces folio partialPath [place] search = search.searchWithin folio partialPath place := by
  rw [searchPlaces]
  rcases search.searchWithin folio partialPath place with ⟨halt, next⟩
  cases halt <;> rfl

theorem searchFilesystems_eq (folio : FileFolio) (partialPath : Path) (arg : Nat) (systems : List FileSystem)
    (search : VersionSearch) :
    VersionSearch.searchFilesystems folio partialPath arg systems search =
      searchPlaces folio partialPath
        ((systems.filter fun fs => fs.exclusion &&& arg = 0).map (·.rootDirectory)) search := by
  induction systems generalizing search with
  | nil => rfl
  | cons fs rest ih =>
    rw [VersionSearch.searchFilesystems]
    by_cases excluded : fs.exclusion &&& arg = 0
    · simp only [excluded, ne_eq, not_true, if_false, List.filter_cons, decide_true, if_true, List.map_cons,
        searchPlaces]
      rcases search.searchWithin folio partialPath fs.rootDirectory with ⟨halt, next⟩
      cases halt with
      | true => rfl
      | false => exact ih next
    · simpa only [excluded, ne_eq, not_false_eq_true, if_true, List.filter_cons, decide_false, Bool.false_eq_true,
        if_false] using ih search

theorem searchTag_searches (folio : FileFolio) (partialPath : Path) (search : VersionSearch) {tag : TagArg}
    (searches : tag.searches = true) :
    ∃ errorCode, search.searchTag folio partialPath tag =
      some (searchPlaces folio partialPath (folio.places tag search.looked).1
        { search with looked := (folio.places tag search.looked).2, errorCode := errorCode }) := by
  obtain ⟨name, arg⟩ := tag
  cases name with
  | searchPath =>
    refine ⟨search.errorCode, ?_⟩
    simp only [VersionSearch.searchTag, FileFolio.places, VersionSearch.findFile]
    cases folio.findFile search.looked folio.currentDirectory arg with
    | none => rfl
    | some place => rw [Option.toList_some, searchPlaces_singleton]; rfl
  | searchFilesystems =>
    refine ⟨search.errorCode, ?_⟩
    simp only [VersionSearch.searchTag, FileFolio.places, searchFilesystems_eq]
  | searchItem =>
    simp only [VersionSearch.searchTag, FileFolio.places]
    cases folio.acceptDirectory search.looked arg with
    | ok place => exact ⟨search.errorCode, by rw [Except.toOption, Option.toList_some, searchPlaces_singleton]⟩
    | error err => exact ⟨some (.refused err), rfl⟩
  | _ => simp [TagArg.searches] at searches

theorem length_words (tags : List TagArg) :
    ((tags.filter fun tag => tag.compared.isSome).map TagArg.word).length = (compared tags).length := by
  rw [List.length_map, compared, List.length_filterMap_eq_countP, List.countP_eq_length_filter]

theorem searchTag_full {tag : TagArg} (kept : tag.compared.isSome = true)
    (full : MAX_SEARCH_TAGS ≤ search.compareTags.length) : search.searchTag folio partialPath tag = none := by
  obtain ⟨name, arg⟩ := tag
  cases name with
  | version | revision => simp [VersionSearch.searchTag, VersionSearch.addCompareTag, full]
  | _ => simp [TagArg.compared] at kept

namespace Follows

theorem given_more (follows : Follows given search) (tag : TagArg) (words : List Nat) (first skip : Bool)
    (word : words = if tag.compared.isSome then [tag.word] else [])
    (firstSays : firstAsked (given ++ [tag]) = first) (skipSays : nonversionedIgnored (given ++ [tag]) = skip) :
    Follows (given ++ [tag])
      { search with compareTags := search.compareTags ++ words, matchFirst := first, skipNonversioned := skip } := by
  refine ⟨?_, firstSays.symm, skipSays.symm⟩
  rw [word, follows.words, List.filter_append, List.map_append]
  cases kept : tag.compared.isSome <;> simp [kept]

theorem given_search (follows : Follows given search) {tag : TagArg} (searches : tag.searches = true) :
    Follows (given ++ [tag]) search := by
  have more := follows.given_more tag [] search.matchFirst search.skipNonversioned
  obtain ⟨name, arg⟩ := tag
  simp only [firstAsked, nonversionedIgnored, List.foldl_append, List.foldl_cons, List.foldl_nil] at more
  cases name with
  | searchPath | searchFilesystems | searchItem => simpa using more rfl follows.first.symm follows.skip.symm
  | _ => simp [TagArg.searches] at searches

end Follows

theorem searchTag_follows (follows : Follows given search) (folio : FileFolio) (partialPath : Path) {tag : TagArg}
    (searches : tag.searches = false)
    (room : tag.compared.isSome = true → search.compareTags.length < MAX_SEARCH_TAGS) :
    ∃ next, search.searchTag folio partialPath tag = some (false, next) ∧ Follows (given ++ [tag]) next ∧
      next.looked = search.looked ∧ next.bestFound = search.bestFound ∧ next.useCount = search.useCount := by
  have more := follows.given_more tag
  obtain ⟨name, arg⟩ := tag
  simp only [firstAsked, nonversionedIgnored, List.foldl_append, List.foldl_cons, List.foldl_nil] at more
  have first : List.foldl _ false given = search.matchFirst := follows.first.symm
  have skip : List.foldl _ false given = search.skipNonversioned := follows.skip.symm
  cases name with
  | version relation =>
    exact ⟨_, if_neg (Nat.not_le_of_lt (room rfl)),
      more [_] search.matchFirst search.skipNonversioned rfl first skip, rfl, rfl, rfl⟩
  | revision relation =>
    exact ⟨_, if_neg (Nat.not_le_of_lt (room rfl)),
      more [_] search.matchFirst search.skipNonversioned rfl first skip, rfl, rfl, rfl⟩
  | findFirstMatch =>
    exact ⟨_, rfl, by simpa using more [] true search.skipNonversioned rfl rfl skip, rfl, rfl, rfl⟩
  | findHighestMatch =>
    exact ⟨_, rfl, by simpa using more [] false search.skipNonversioned rfl rfl skip, rfl, rfl, rfl⟩
  | noVersionIs00 => exact ⟨_, rfl, by simpa using more [] search.matchFirst false rfl first rfl, rfl, rfl, rfl⟩
  | noVersionIgnored => exact ⟨_, rfl, by simpa using more [] search.matchFirst true rfl first rfl, rfl, rfl, rfl⟩
  | verrev relation =>
    exact ⟨_, rfl, by simpa using more [] search.matchFirst search.skipNonversioned rfl first skip, rfl, rfl, rfl⟩
  | other =>
    exact ⟨_, rfl, by simpa using more [] search.matchFirst search.skipNonversioned rfl first skip, rfl, rfl, rfl⟩
  | _ => simp [TagArg.searches] at searches

theorem Tracks.carried (tracks : Tracks folio before given done search) {given' : List TagArg} {next : VersionSearch}
    (follows : Follows given' next) (best : next.bestFound = search.bestFound)
    (counted : next.useCount = search.useCount) : Tracks folio before given' done next := by
  refine ⟨follows, ?_, ?_, ?_⟩
  · rw [best, counted]
    exact tracks.counted
  · rw [best]
    exact tracks.missed
  · rw [best]
    exact tracks.found

theorem trialsFrom_cons (folio : FileFolio) (partialPath : Path) (given : List TagArg) (tag : TagArg)
    (rest : List TagArg) (looked : Nat) :
    folio.trialsFrom partialPath given (tag :: rest) looked =
      (folio.candidates partialPath (folio.places tag looked).1 (folio.places tag looked).2).map (⟨given, ·⟩) ++
        folio.trialsFrom partialPath (given ++ [tag]) rest
          ((folio.places tag looked).2 + (folio.places tag looked).1.length) := rfl

theorem places_setting (folio : FileFolio) {tag : TagArg} (searches : tag.searches = false) (looked : Nat) :
    folio.places tag looked = ([], looked) := by
  obtain ⟨name, arg⟩ := tag
  cases name with
  | searchPath | searchFilesystems | searchItem => simp [TagArg.searches] at searches
  | _ => rfl

theorem trialsFrom_setting {tag : TagArg} (searches : tag.searches = false) (rest : List TagArg) (looked : Nat) :
    folio.trialsFrom partialPath given (tag :: rest) looked =
      folio.trialsFrom partialPath (given ++ [tag]) rest looked := by
  simp [trialsFrom_cons, places_setting folio searches, FileFolio.candidates]

theorem mem_trialsFrom {trial : Trial} {rest : List TagArg} {looked : Nat}
    (member : trial ∈ folio.trialsFrom partialPath given rest looked) :
    ∃ first tag last, rest = first ++ tag :: last ∧ trial.given = given ++ first ∧ tag.searches = true := by
  induction rest generalizing given looked with
  | nil => simp [FileFolio.trialsFrom] at member
  | cons tag rest ih =>
    rw [trialsFrom_cons] at member
    rcases List.mem_append.mp member with here | later
    · obtain ⟨candidate, found, rfl⟩ := List.mem_map.mp here
      refine ⟨[], tag, rest, rfl, by simp, ?_⟩
      by_contra setting
      rw [places_setting folio (Bool.eq_false_of_not_eq_true setting)] at found
      simp [FileFolio.candidates] at found
    · obtain ⟨first, tag', last, rfl, same, searches⟩ := ih later
      exact ⟨tag :: first, tag', last, rfl, by simp [same], searches⟩

theorem length_compared_le (first last : List TagArg) :
    (compared first).length ≤ (compared (first ++ last)).length := by
  simp [compared, List.filterMap_append]

def Behind (given : List TagArg) (done : List Trial) : Prop :=
  ∀ trial ∈ done, ∃ tag rest, given = trial.given ++ tag :: rest ∧ tag.searches = true

theorem Heeded.single_of_tracks (heeded : Heeded tags) (tracks : Tracks folio before given done search)
    (behind : Behind given done) {tag : TagArg} {rest : List TagArg} (place : tags = given ++ tag :: rest)
    (searches : tag.searches = true) (fits : (compared given).length ≤ MAX_SEARCH_TAGS) : Single given search := by
  intro first
  cases best : search.bestFound with
  | none => exact .inl rfl
  | some file =>
    right
    obtain ⟨trial, member, -, -, highest, -⟩ := tracks.found file best
    obtain ⟨former, between, split, formerSearches⟩ := behind trial member
    have asked : firstAsked given = true := tracks.first.symm.trans first
    rw [split] at place fits asked ⊢
    rw [List.append_assoc, List.cons_append] at place
    exact heeded.single trial.given former between tag rest place formerSearches searches fits highest asked

theorem Heeded.findsBest_of_full (heeded : Heeded tags) (tracks : Tracks folio before given done search)
    (behind : Behind given done) {tag : TagArg} {rest : List TagArg} (place : tags = given ++ tag :: rest)
    (kept : tag.compared.isSome = true) (full : MAX_SEARCH_TAGS ≤ (compared given).length) {looked : Nat}
    {ended : VersionSearch} (same : ended.useCount = search.useCount) :
    FindsBest folio (done ++ folio.trialsFrom partialPath (given ++ [tag]) rest looked) before (none, ended) := by
  obtain ⟨constraint, isKept⟩ := Option.isSome_iff_exists.mp kept
  have more : MAX_SEARCH_TAGS < (compared (given ++ [tag])).length := by
    simp only [compared, List.filterMap_append, List.filterMap_cons, isKept, List.filterMap_nil, List.length_append,
      List.length_singleton] at full ⊢
    omega
  have many : MAX_SEARCH_TAGS < (compared tags).length := by
    have le := length_compared_le (given ++ [tag]) rest
    rw [place, List.append_cons]
    omega
  have empty : search.bestFound = none := by
    cases best : search.bestFound with
    | none => rfl
    | some file =>
      obtain ⟨trial, member, -, satisfies, highest, -⟩ := tracks.found file best
      obtain ⟨former, between, split, formerSearches⟩ := behind trial member
      rw [split, List.append_assoc, List.cons_append] at place
      exact absurd satisfies.2 (heeded.room many _ _ _ place formerSearches (.inr highest) _)
  refine ⟨fun file held => absurd held (by simp), fun _ trial member => ?_, fun file => ?_⟩
  · rcases List.mem_append.mp member with old | new
    · exact tracks.missed empty trial old
    · obtain ⟨first, later, last, split, given', searches⟩ := mem_trialsFrom new
      have there : tags = trial.given ++ later :: last := by rw [place, given', split]; simp
      have cut : MAX_SEARCH_TAGS < (compared trial.given).length := by
        have le := length_compared_le (given ++ [tag]) first
        rw [given']
        omega
      exact fun satisfies => heeded.room many _ _ _ there searches (.inl cut) _ satisfies.2
  · have count := tracks.counted file
    rw [empty] at count
    simpa only [same] using count

theorem Tracks.findsBest (tracks : Tracks folio before given done search) :
    FindsBest folio done before (search.bestFound, search) := by
  refine ⟨fun file held => ?_, tracks.missed, tracks.counted⟩
  obtain ⟨trial, member, same, satisfies, -, most⟩ := tracks.found file held
  exact ⟨trial, member, same, satisfies, fun _ => most⟩

theorem fileSearchFrom_findsBest (partialPath : Path) (heeded : Heeded tags) (rest : List TagArg)
    (place : tags = given ++ rest) (fits : (compared given).length ≤ MAX_SEARCH_TAGS)
    (tracks : Tracks folio before given done search)
    (behind : Behind given done) :
    FindsBest folio (done ++ folio.trialsFrom partialPath given rest search.looked) before
      (search.fileSearchFrom folio partialPath rest) := by
  induction rest generalizing given done search with
  | nil => simpa [FileFolio.trialsFrom, VersionSearch.fileSearchFrom] using tracks.findsBest
  | cons tag rest ih =>
    have next : tags = (given ++ [tag]) ++ rest := by rw [place, List.append_cons]
    have length : search.compareTags.length = (compared given).length := by rw [tracks.words, length_words]
    rw [VersionSearch.fileSearchFrom]
    cases searches : tag.searches with
    | false =>
      rw [trialsFrom_setting searches]
      by_cases room : tag.compared.isSome = true → search.compareTags.length < MAX_SEARCH_TAGS
      · obtain ⟨after, does, follows, looked, best, counted⟩ :=
          searchTag_follows tracks.toFollows folio partialPath searches room
        rw [does, ← looked]
        refine ih next ?_ (tracks.carried follows best counted) ?_
        · cases kept : tag.compared with
          | none => simpa [compared, kept] using fits
          | some constraint =>
            have less := room (by simp [kept])
            simp only [compared, List.filterMap_append, List.filterMap_cons, kept, List.filterMap_nil,
              List.length_append, List.length_singleton] at length ⊢
            omega
        · intro trial member
          obtain ⟨former, between, split, formerSearches⟩ := behind trial member
          exact ⟨former, between ++ [tag], by simp [split], formerSearches⟩
      · obtain ⟨kept, full⟩ : tag.compared.isSome = true ∧ ¬ search.compareTags.length < MAX_SEARCH_TAGS := by
          simpa only [Classical.not_imp] using room
        rw [searchTag_full kept (Nat.le_of_not_lt full)]
        exact heeded.findsBest_of_full tracks behind place kept (by omega) rfl
    | true =>
      obtain ⟨errorCode, does⟩ := searchTag_searches folio partialPath search searches
      have placed : Tracks folio before given done
          { search with looked := (folio.places tag search.looked).2, errorCode := errorCode } :=
        ⟨⟨tracks.words, tracks.first, tracks.skip⟩, tracks.counted, tracks.missed, tracks.found⟩
      have outcome := searchPlaces_outcome partialPath (folio.places tag search.looked).1
        (heeded.same given tag rest place searches fits) placed
        (heeded.single_of_tracks placed behind place searches fits)
      rw [does, trialsFrom_cons]
      generalize searchPlaces folio partialPath _ _ = ended at outcome ⊢
      obtain ⟨halt, after⟩ := ended
      cases halt with
      | true =>
        obtain ⟨candidate, member, stopped⟩ := outcome.stopped rfl
        refine ⟨fun file held => ?_, fun missed => ?_, fun file => ?_⟩
        · obtain rfl : candidate = file := Option.some.inj (stopped.best.symm.trans held)
          refine ⟨⟨given, candidate⟩, ?_, rfl, stopped.satisfies, fun highest => ?_⟩
          · exact List.mem_append_right _ (List.mem_append_left _ (List.mem_map_of_mem member))
          · exact absurd (stopped.first.symm.trans highest) (by simp)
        · exact absurd (stopped.best.symm.trans missed) (by simp)
        · have count := stopped.counted file
          rwa [← stopped.best] at count
      | false =>
        have looked := outcome.looked rfl
        have kept : tag.compared = none := by
          obtain ⟨name, arg⟩ := tag
          cases name with
          | version | revision => simp [TagArg.searches] at searches
          | _ => rfl
        have fitsNext : (compared (given ++ [tag])).length ≤ MAX_SEARCH_TAGS := by
          simpa [compared, kept] using fits
        have behindHere := outcome.goesOn rfl
        have follows := behindHere.toFollows.given_search searches
        have later := ih next fitsNext (behindHere.carried follows rfl rfl) fun trial member => by
          rcases List.mem_append.mp member with old | new
          · obtain ⟨former, between, split, formerSearches⟩ := behind trial old
            exact ⟨former, between ++ [tag], by simp [split], formerSearches⟩
          · obtain ⟨candidate, -, rfl⟩ := List.mem_map.mp new
            exact ⟨tag, [], rfl, searches⟩
        rw [looked, List.append_assoc] at later
        exact later

end Portfolio.FileSearch
