import Portfolio.File.FileSearchRun

set_option autoImplicit false

namespace Portfolio.FileSearch

variable {tags given : List TagArg} {search : VersionSearch} {partialPath : Path} {file : File}
  {answer : Nat → Option FileId}

def lone (file : File) (answer : Nat → Option FileId) : FileFolio where
  file _ := file
  currentDirectory := 0
  filesystems _ := [⟨3, false, false, false, true⟩]
  findFile looked place _ := if place = 0 then some 1 else answer looked
  acceptDirectory _ _ := .ok 2

def TagArg.turns (tag : TagArg) : Nat :=
  match tag.tag with
  | .searchPath => 2
  | .searchFilesystems | .searchItem => 1
  | _ => 0

def turns (tags : List TagArg) : Nat := (tags.map TagArg.turns).sum

theorem lone_places (file : File) (answer : Nat → Option FileId) {tag : TagArg}
    (searches : tag.searches = true) (looked : Nat) :
    ∃ place, place ≠ 0 ∧ (lone file answer).places tag looked = ([place], looked + tag.turns - 1) ∧ 0 < tag.turns := by
  obtain ⟨name, arg⟩ := tag
  cases name with
  | searchPath => exact ⟨1, by simp, rfl, by simp [TagArg.turns]⟩
  | searchFilesystems =>
    refine ⟨3, by simp, ?_, by simp [TagArg.turns]⟩
    have included : (FileSystem.exclusion ⟨3, false, false, false, true⟩) &&& arg = 0 := by
      simp [FileSystem.exclusion]
    simp [FileFolio.places, lone, included, TagArg.turns]
  | searchItem => exact ⟨2, by simp, rfl, by simp [TagArg.turns]⟩
  | _ => simp [TagArg.searches] at searches

theorem lone_trials {tag : TagArg} (searches : tag.searches = true) (rest : List TagArg) (looked : Nat) :
    (lone file answer).trialsFrom partialPath given (tag :: rest) looked =
      (answer (looked + tag.turns - 1)).toList.map (⟨given, ·⟩) ++
        (lone file answer).trialsFrom partialPath (given ++ [tag]) rest (looked + tag.turns) := by
  obtain ⟨place, there, places, positive⟩ := lone_places file answer searches looked
  have next : looked + tag.turns - 1 + 1 = looked + tag.turns := by omega
  have found : (lone file answer).candidates partialPath [place] (looked + tag.turns - 1) =
      (answer (looked + tag.turns - 1)).toList := by
    rw [candidates_cons]
    simp [FileFolio.candidates, lone, there]
  rw [trialsFrom_cons, places, found, List.length_singleton, next]

theorem lone_silent (file : File) (partialPath : Path) {tag : TagArg} (searches : tag.searches = true)
    (silent : answer (search.looked + tag.turns - 1) = none) :
    ∃ errorCode, search.searchTag (lone file answer) partialPath tag =
      some (false, { search with looked := search.looked + tag.turns, errorCode := errorCode }) := by
  obtain ⟨errorCode, does⟩ := searchTag_searches (lone file answer) partialPath search searches
  obtain ⟨place, there, places, positive⟩ := lone_places file answer searches search.looked
  have next : search.looked + tag.turns - 1 + 1 = search.looked + tag.turns := by omega
  refine ⟨errorCode, ?_⟩
  rw [does, places, searchPlaces_singleton, searchWithin_eq]
  simp [lone, there, silent, next]

theorem lone_found (file : File) (partialPath : Path) {tag : TagArg} (searches : tag.searches = true)
    {candidate : FileId} (found : answer (search.looked + tag.turns - 1) = some candidate) :
    ∃ errorCode, search.searchTag (lone file answer) partialPath tag =
      some (VersionSearch.judge (lone file answer)
        { search with looked := search.looked + tag.turns, errorCode := errorCode,
                      useCount := raise search.useCount candidate } candidate) := by
  obtain ⟨errorCode, does⟩ := searchTag_searches (lone file answer) partialPath search searches
  obtain ⟨place, there, places, positive⟩ := lone_places file answer searches search.looked
  have next : search.looked + tag.turns - 1 + 1 = search.looked + tag.turns := by omega
  refine ⟨errorCode, ?_⟩
  rw [does, places, searchPlaces_singleton, searchWithin_eq]
  simp [lone, there, found, next, VersionSearch.holding]

def Silent (answer : Nat → Option FileId) (looked : Nat) (first : List TagArg) : Prop :=
  ∀ k, looked ≤ k → k < looked + turns first → answer k = none

theorem turns_cons (tag : TagArg) (rest : List TagArg) : turns (tag :: rest) = tag.turns + turns rest := by
  simp [turns]

theorem turns_append (first last : List TagArg) : turns (first ++ last) = turns first + turns last := by
  simp [turns]

theorem turns_setting {tag : TagArg} (searches : tag.searches = false) : tag.turns = 0 := by
  obtain ⟨name, arg⟩ := tag
  cases name with
  | searchPath | searchFilesystems | searchItem => simp [TagArg.searches] at searches
  | _ => rfl

theorem Silent.cons {looked : Nat} {tag : TagArg} {rest : List TagArg} (silent : Silent answer looked (tag :: rest)) :
    (tag.searches = true → answer (looked + tag.turns - 1) = none) ∧ Silent answer (looked + tag.turns) rest := by
  constructor
  · intro searches
    obtain ⟨-, -, -, positive⟩ := lone_places ⟨0, 0, true⟩ answer searches looked
    exact silent _ (by omega) (by rw [turns_cons]; omega)
  · intro k from' to'
    exact silent k (by omega) (by rw [turns_cons]; omega)

theorem lone_trials_silent (file : File) (partialPath : Path) (given first rest : List TagArg) (looked : Nat)
    (silent : Silent answer looked first) :
    (lone file answer).trialsFrom partialPath given (first ++ rest) looked =
      (lone file answer).trialsFrom partialPath (given ++ first) rest (looked + turns first) := by
  induction first generalizing given looked with
  | nil => simp [turns]
  | cons tag first ih =>
    obtain ⟨here, later⟩ := silent.cons
    have next := ih (given ++ [tag]) (looked + tag.turns) later
    rw [List.append_assoc, Nat.add_assoc, ← turns_cons, List.singleton_append] at next
    cases searches : tag.searches with
    | true => rw [List.cons_append, lone_trials searches, here searches, next]; simp
    | false =>
      rw [turns_setting searches, Nat.add_zero] at next
      rw [List.cons_append, trialsFrom_setting searches, next]

theorem compared_snoc (tag : TagArg) :
    (compared (given ++ [tag])).length = (compared given).length + if tag.compared.isSome then 1 else 0 := by
  cases kept : tag.compared <;> simp [compared, kept]

theorem compared_searches {tag : TagArg} (searches : tag.searches = true) : tag.compared = none := by
  obtain ⟨name, arg⟩ := tag
  cases name with
  | version | revision => simp [TagArg.searches] at searches
  | _ => rfl

theorem lone_prefix (file : File) (partialPath : Path) (first : List TagArg) (follows : Follows given search)
    (fits : (compared (given ++ first)).length ≤ MAX_SEARCH_TAGS) (silent : Silent answer search.looked first) :
    ∃ next, (∀ rest, search.fileSearchFrom (lone file answer) partialPath (first ++ rest) =
        next.fileSearchFrom (lone file answer) partialPath rest) ∧
      Follows (given ++ first) next ∧ next.looked = search.looked + turns first ∧
      next.bestFound = search.bestFound ∧ next.useCount = search.useCount := by
  induction first generalizing given search with
  | nil => exact ⟨search, fun rest => rfl, by simpa using follows, rfl, rfl, rfl⟩
  | cons tag first ih =>
    obtain ⟨here, later⟩ := silent.cons
    rw [List.append_cons] at fits ⊢
    have fitsHere := Nat.le_trans (length_compared_le (given ++ [tag]) first) fits
    have length : search.compareTags.length = (compared given).length := by rw [follows.words, length_words]
    have step : ∃ next, search.searchTag (lone file answer) partialPath tag = some (false, next) ∧
        Follows (given ++ [tag]) next ∧ next.looked = search.looked + tag.turns ∧
        next.bestFound = search.bestFound ∧ next.useCount = search.useCount := by
      cases searches : tag.searches with
      | true =>
        obtain ⟨errorCode, does⟩ := lone_silent file partialPath searches (here searches)
        have followsNext := follows.given_search searches
        exact ⟨_, does, ⟨followsNext.words, followsNext.first, followsNext.skip⟩, rfl, rfl, rfl⟩
      | false =>
        rw [turns_setting searches]
        refine searchTag_follows follows _ partialPath searches fun kept => ?_
        rw [compared_snoc, kept] at fitsHere
        simp only [if_true] at fitsHere
        omega
    obtain ⟨middle, does, followsMiddle, looked, best, counted⟩ := step
    rw [← looked] at later
    obtain ⟨next, same, followsNext, looked', best', counted'⟩ := ih followsMiddle fits later
    refine ⟨next, fun rest => ?_, followsNext, ?_, best'.trans best, counted'.trans counted⟩
    · rw [List.cons_append, VersionSearch.fileSearchFrom, does]
      exact same rest
    · rw [looked', looked, turns_cons]
      omega

theorem compared_overfull (first : List TagArg) (fits : (compared given).length ≤ MAX_SEARCH_TAGS)
    (exceeds : MAX_SEARCH_TAGS < (compared (given ++ first)).length) :
    ∃ former tag later, first = former ++ tag :: later ∧ tag.compared.isSome = true ∧
      (compared (given ++ former)).length = MAX_SEARCH_TAGS := by
  induction first generalizing given with
  | nil =>
    rw [List.append_nil] at exceeds
    omega
  | cons tag first ih =>
    rw [List.append_cons] at exceeds
    by_cases here : (compared (given ++ [tag])).length ≤ MAX_SEARCH_TAGS
    · obtain ⟨former, tag', later, rfl, kept, full⟩ := ih here exceeds
      exact ⟨tag :: former, tag', later, rfl, kept, by rw [List.append_cons]; exact full⟩
    · rw [compared_snoc] at here
      refine ⟨[], tag, first, rfl, ?_, ?_⟩
      · by_contra none
        rw [if_neg none] at here
        omega
      · rw [List.append_nil]
        split_ifs at here <;> omega

theorem lone_overfull (file : File) (partialPath : Path) (first rest : List TagArg) (follows : Follows given search)
    (fits : (compared given).length ≤ MAX_SEARCH_TAGS) (exceeds : MAX_SEARCH_TAGS < (compared (given ++ first)).length)
    (silent : Silent answer search.looked first) :
    (search.fileSearchFrom (lone file answer) partialPath (first ++ rest)).1 = none ∧
      (search.fileSearchFrom (lone file answer) partialPath (first ++ rest)).2.useCount = search.useCount := by
  obtain ⟨former, tag, later, rfl, kept, full⟩ := compared_overfull first fits exceeds
  have silentFormer : Silent answer search.looked former := fun k from' to' =>
    silent k from' (by rw [turns_append]; omega)
  obtain ⟨next, same, followsNext, -, -, counted⟩ :=
    lone_prefix file partialPath former follows (Nat.le_of_eq full) silentFormer
  have length : next.compareTags.length = MAX_SEARCH_TAGS := by rw [followsNext.words, length_words, full]
  rw [List.append_assoc, same, List.cons_append, VersionSearch.fileSearchFrom,
    searchTag_full kept (Nat.le_of_eq length.symm)]
  exact ⟨rfl, counted⟩

theorem lone_end (file : File) (partialPath : Path) (rest : List TagArg) (follows : Follows given search)
    (fits : (compared given).length ≤ MAX_SEARCH_TAGS) (silent : Silent answer search.looked rest) :
    (search.fileSearchFrom (lone file answer) partialPath rest).1 =
        (if MAX_SEARCH_TAGS < (compared (given ++ rest)).length then none else search.bestFound) ∧
      (search.fileSearchFrom (lone file answer) partialPath rest).2.useCount = search.useCount := by
  split_ifs with exceeds
  · have ends := lone_overfull file partialPath rest [] follows fits exceeds silent
    rwa [List.append_nil] at ends
  · obtain ⟨next, same, -, -, best, counted⟩ :=
      lone_prefix file partialPath rest follows (Nat.le_of_not_lt exceeds) silent
    have ends := same []
    rw [List.append_nil, VersionSearch.fileSearchFrom] at ends
    rw [ends]
    exact ⟨best, counted⟩

theorem suitable_iff (follows : Follows given search) (versioned : file.hasValidVersion = true) :
    search.isSuitable file = true ↔ Admits (compared given) file := by
  rw [← follows.passes]
  unfold VersionSearch.isSuitable
  rw [versioned]
  simp

theorem judge_suitable (folio : FileFolio) (search : VersionSearch) (candidate : FileId)
    (suits : search.isSuitable (folio.file candidate) = true)
    (alone : search.matchFirst = true ∨ search.bestFound = none) :
    search.judge folio candidate = (search.matchFirst, { search with bestFound := some candidate }) := by
  unfold VersionSearch.judge
  rw [if_pos suits]
  cases first : search.matchFirst with
  | true => rfl
  | false =>
    have empty : search.bestFound = none := by simpa [first] using alone
    simp [empty]

theorem judge_unsuitable (folio : FileFolio) (search : VersionSearch) (candidate : FileId)
    (unsuited : ¬ search.isSuitable (folio.file candidate) = true) :
    search.judge folio candidate = (false, { search with useCount := lower search.useCount candidate }) := by
  unfold VersionSearch.judge
  rw [if_neg unsuited]

theorem lone_accepts (partialPath : Path) (follows : Follows given search) (versioned : file.hasValidVersion = true)
    {tag : TagArg} (searches : tag.searches = true) {candidate : FileId}
    (found : answer (search.looked + tag.turns - 1) = some candidate) (admits : Admits (compared given) file)
    (alone : search.matchFirst = true ∨ search.bestFound = none) :
    ∃ after, search.searchTag (lone file answer) partialPath tag = some (search.matchFirst, after) ∧
      Follows (given ++ [tag]) after ∧ after.looked = search.looked + tag.turns ∧
      after.bestFound = some candidate ∧ after.useCount = raise search.useCount candidate := by
  obtain ⟨errorCode, does⟩ := lone_found file partialPath searches found
  have suits := (suitable_iff follows versioned).mpr admits
  have followsNext := follows.given_search searches
  refine ⟨{ search with bestFound := some candidate, looked := search.looked + tag.turns, errorCode := errorCode,
                        useCount := raise search.useCount candidate }, ?_, ?_, rfl, rfl, rfl⟩
  · rw [does, judge_suitable]
    · exact suits
    · exact alone
  · exact ⟨followsNext.words, followsNext.first, followsNext.skip⟩

theorem lone_refuses (partialPath : Path) (follows : Follows given search) (versioned : file.hasValidVersion = true)
    {tag : TagArg} (searches : tag.searches = true) {candidate : FileId}
    (found : answer (search.looked + tag.turns - 1) = some candidate) (refused : ¬ Admits (compared given) file) :
    ∃ after, search.searchTag (lone file answer) partialPath tag = some (false, after) ∧
      Follows (given ++ [tag]) after ∧ after.looked = search.looked + tag.turns ∧
      after.bestFound = search.bestFound ∧ after.useCount = search.useCount := by
  obtain ⟨errorCode, does⟩ := lone_found file partialPath searches found
  have unsuited := mt (suitable_iff follows versioned).mp refused
  have followsNext := follows.given_search searches
  refine ⟨{ search with looked := search.looked + tag.turns, errorCode := errorCode }, ?_, ?_, rfl, rfl, rfl⟩
  · rw [does, judge_unsuitable]
    · simp only [lower_raise]
    · exact unsuited
  · exact ⟨followsNext.words, followsNext.first, followsNext.skip⟩

def onlyAt (numbers : List Nat) (looked : Nat) : Option FileId := if looked ∈ numbers then some 7 else none

theorem lone_reached (file : File) (partialPath : Path) (useCount : FileId → Int) (rest : List TagArg)
    (fits : (compared given).length ≤ MAX_SEARCH_TAGS) (silent : Silent answer 0 given) :
    ∃ next, fileSearch (lone file answer) partialPath (given ++ rest) useCount 0 =
        next.fileSearchFrom (lone file answer) partialPath rest ∧
      Follows given next ∧ next.looked = turns given ∧ next.bestFound = none ∧ next.useCount = useCount := by
  have follows : Follows [] (initial useCount 0) := ⟨rfl, rfl, rfl⟩
  obtain ⟨next, same, followsNext, looked, best, counted⟩ := lone_prefix file partialPath given follows fits silent
  exact ⟨next, same rest, followsNext, by simpa [initial] using looked, best, counted⟩

def AlwaysFindsBest (tags : List TagArg) : Prop :=
  ∀ (folio : FileFolio) (partialPath : Path) (useCount : FileId → Int) (looked : Nat),
    FindsBest folio (folio.trials partialPath tags looked) useCount (fileSearch folio partialPath tags useCount looked)

def turnOf (given : List TagArg) (tag : TagArg) : Nat := turns given + tag.turns - 1

theorem onlyAt_silent {numbers : List Nat} {looked : Nat} {first : List TagArg}
    (apart : ∀ k ∈ numbers, k < looked ∨ looked + turns first ≤ k) : Silent (onlyAt numbers) looked first := by
  intro k from' to'
  refine if_neg fun member => ?_
  have := apart k member
  omega

theorem versioned_admits (tags : List TagArg) (file : File) :
    Admits tags { file with hasValidVersion := true } ↔ Admits tags file := Iff.rfl

section OneTrial

variable {tag : TagArg}

theorem turnOf_pos (given : List TagArg) (searches : tag.searches = true) :
    turnOf given tag + 1 = turns given + tag.turns := by
  obtain ⟨-, -, -, positive⟩ := lone_places ⟨0, 0, true⟩ (onlyAt []) searches 0
  simp only [turnOf]
  omega

theorem silent_before (searches : tag.searches = true) : Silent (onlyAt [turnOf given tag]) 0 given := by
  have next := turnOf_pos given searches
  obtain ⟨-, -, -, positive⟩ := lone_places ⟨0, 0, true⟩ (onlyAt []) searches 0
  exact onlyAt_silent fun k member => by
    obtain rfl := List.mem_singleton.mp member
    omega

theorem silent_behind (given : List TagArg) (searches : tag.searches = true) (rest : List TagArg) :
    Silent (onlyAt [turnOf given tag]) (turns given + tag.turns) rest := by
  have next := turnOf_pos given searches
  exact onlyAt_silent fun k member => by
    obtain rfl := List.mem_singleton.mp member
    omega

theorem lone_trial (file : File) (partialPath : Path) (rest : List TagArg) (searches : tag.searches = true) :
    (lone file (onlyAt [turnOf given tag])).trials partialPath (given ++ tag :: rest) 0 = [⟨given, 7⟩] := by
  have found : onlyAt [turnOf given tag] (turns given + tag.turns - 1) = some 7 := if_pos (by simp [turnOf])
  have later := lone_trials_silent file partialPath (given ++ [tag]) rest [] _ (silent_behind given searches rest)
  rw [FileFolio.trials, lone_trials_silent file partialPath [] given (tag :: rest) 0 (silent_before searches),
    List.nil_append, Nat.zero_add, lone_trials searches, found]
  rw [List.append_nil] at later
  rw [later]
  simp [FileFolio.trialsFrom]

theorem lone_run_accepts (partialPath : Path) (rest : List TagArg) (useCount : FileId → Int)
    (versioned : file.hasValidVersion = true) (searches : tag.searches = true)
    (fits : (compared given).length ≤ MAX_SEARCH_TAGS)
    (admits : Admits (compared given) file) :
    let ended := fileSearch (lone file (onlyAt [turnOf given tag])) partialPath (given ++ tag :: rest) useCount 0
    (ended.1 = some 7 ∨ ended.1 = none ∧ MAX_SEARCH_TAGS < (compared (given ++ tag :: rest)).length) ∧
      (firstAsked given = false → MAX_SEARCH_TAGS < (compared (given ++ tag :: rest)).length → ended.1 = none) ∧
      ended.2.useCount = raise useCount 7 := by
  obtain ⟨next, same, follows, looked, best, counted⟩ :=
    lone_reached file partialPath useCount (tag :: rest) fits (silent_before searches)
  have found : onlyAt [turnOf given tag] (next.looked + tag.turns - 1) = some 7 := by
    rw [looked]
    exact if_pos (by simp [turnOf])
  obtain ⟨after, does, followsAfter, lookedAfter, bestAfter, countedAfter⟩ :=
    lone_accepts partialPath follows versioned searches found admits (.inr best)
  dsimp only
  rw [same, VersionSearch.fileSearchFrom, does, follows.first]
  cases first : firstAsked given with
  | true => exact ⟨.inl bestAfter, fun highest => absurd highest (by simp), countedAfter.trans (by rw [counted])⟩
  | false =>
    have fitsAfter : (compared (given ++ [tag])).length ≤ MAX_SEARCH_TAGS := by
      simpa [compared, compared_searches searches] using fits
    have silent : Silent (onlyAt [turnOf given tag]) after.looked rest := by
      rw [lookedAfter, looked]
      exact silent_behind given searches rest
    obtain ⟨ends, countedEnd⟩ := lone_end file partialPath rest followsAfter fitsAfter silent
    rw [← List.append_cons] at ends
    refine ⟨?_, fun _ exceeds => ?_, by rw [countedEnd, countedAfter, counted]⟩
    · split_ifs at ends with exceeds
      · exact .inr ⟨ends, exceeds⟩
      · exact .inl (ends.trans bestAfter)
    · rw [if_pos exceeds] at ends
      exact ends

theorem lone_run_refuses (partialPath : Path) (rest : List TagArg) (useCount : FileId → Int)
    (versioned : file.hasValidVersion = true) (searches : tag.searches = true)
    (fits : (compared given).length ≤ MAX_SEARCH_TAGS)
    (refused : ¬ Admits (compared given) file) :
    (fileSearch (lone file (onlyAt [turnOf given tag])) partialPath (given ++ tag :: rest) useCount 0).1 = none := by
  obtain ⟨next, same, follows, looked, best, counted⟩ :=
    lone_reached file partialPath useCount (tag :: rest) fits (silent_before searches)
  have found : onlyAt [turnOf given tag] (next.looked + tag.turns - 1) = some 7 := by
    rw [looked]
    exact if_pos (by simp [turnOf])
  obtain ⟨after, does, followsAfter, lookedAfter, bestAfter, -⟩ :=
    lone_refuses partialPath follows versioned searches found refused
  have fitsAfter : (compared (given ++ [tag])).length ≤ MAX_SEARCH_TAGS := by
    simpa [compared, compared_searches searches] using fits
  have silent : Silent (onlyAt [turnOf given tag]) after.looked rest := by
    rw [lookedAfter, looked]
    exact silent_behind given searches rest
  obtain ⟨ends, -⟩ := lone_end file partialPath rest followsAfter fitsAfter silent
  rw [same, VersionSearch.fileSearchFrom, does]
  dsimp only
  rw [ends, bestAfter, best]
  exact ite_self none

end OneTrial

namespace AlwaysFindsBest

theorem same (always : AlwaysFindsBest tags) {tag : TagArg} {rest : List TagArg} (place : tags = given ++ tag :: rest)
    (searches : tag.searches = true) (fits : (compared given).length ≤ MAX_SEARCH_TAGS) (file : File) :
    Admits (compared given) file ↔ Admits given file := by
  rw [← versioned_admits _ file, ← versioned_admits given file]
  have finds := always (lone { file with hasValidVersion := true } (onlyAt [turnOf given tag])) 0 (fun _ => 0) 0
  rw [place, lone_trial _ _ _ searches] at finds
  constructor
  · intro admits
    obtain ⟨ended, -, counted⟩ := lone_run_accepts 0 rest (fun _ => 0) rfl searches fits admits
    have kept := ended.resolve_right fun lost => by
      obtain ⟨missed, -⟩ := lost
      have count := finds.counted 7
      rw [counted, missed] at count
      simp at count
    obtain ⟨trial, member, -, satisfies, -⟩ := finds.found 7 kept
    obtain rfl := List.mem_singleton.mp member
    exact satisfies.2
  · intro admits
    by_contra refused
    have missed := lone_run_refuses 0 rest (fun _ => 0) rfl searches fits refused
    exact finds.missed missed _ (List.mem_singleton.mpr rfl) ⟨fun _ => rfl, admits⟩

theorem room (always : AlwaysFindsBest tags) (many : MAX_SEARCH_TAGS < (compared tags).length) {tag : TagArg}
    {rest : List TagArg} (place : tags = given ++ tag :: rest) (searches : tag.searches = true)
    (lost : MAX_SEARCH_TAGS < (compared given).length ∨ firstAsked given = false) (file : File) :
    ¬ Admits given file := by
  rw [← versioned_admits given file]
  intro admits
  have finds := always (lone { file with hasValidVersion := true } (onlyAt [turnOf given tag])) 0 (fun _ => 0) 0
  rw [place, lone_trial _ _ _ searches] at finds
  by_cases fits : (compared given).length ≤ MAX_SEARCH_TAGS
  · have highest := lost.resolve_left (Nat.not_lt_of_le fits)
    obtain ⟨-, ended, counted⟩ := lone_run_accepts 0 rest (fun _ => 0) rfl searches fits
      ((always.same place searches fits _).mpr admits)
    have count := finds.counted 7
    rw [counted, ended highest (by rwa [← place])] at count
    simp at count
  · have follows : Follows [] (initial (fun _ => 0) 0) := ⟨rfl, rfl, rfl⟩
    obtain ⟨missed, -⟩ := lone_overfull { file with hasValidVersion := true } 0 given (tag :: rest) follows
      (by simp [compared]) (Nat.lt_of_not_le fits) (silent_before searches)
    exact finds.missed missed _ (List.mem_singleton.mpr rfl) ⟨fun _ => rfl, admits⟩

theorem single (always : AlwaysFindsBest tags) {tag later : TagArg} {between rest : List TagArg}
    (place : tags = given ++ tag :: (between ++ later :: rest)) (searches : tag.searches = true)
    (laterSearches : later.searches = true)
    (fits : (compared (given ++ tag :: between)).length ≤ MAX_SEARCH_TAGS) (highest : firstAsked given = false)
    (first : firstAsked (given ++ tag :: between) = true) (file : File) : ¬ Admits (given ++ tag :: between) file := by
  rw [← versioned_admits _ file]
  intro admits
  let answer := onlyAt [turnOf given tag, turnOf (given ++ tag :: between) later]
  have here := turnOf_pos given searches
  have there := turnOf_pos (given ++ tag :: between) laterSearches
  have turnsThere : turns (given ++ tag :: between) = turns given + tag.turns + turns between := by
    rw [turns_append, turns_cons, Nat.add_assoc]
  obtain ⟨-, -, -, positive⟩ := lone_places file answer searches 0
  obtain ⟨-, -, -, laterPositive⟩ := lone_places file answer laterSearches 0
  have fitsHere := Nat.le_trans (length_compared_le given (tag :: between)) fits
  -- the file is the best one behind the first search, and found once more by the second
  have silentBefore : Silent answer 0 given := onlyAt_silent fun k member => by
    simp only [List.mem_cons, List.not_mem_nil, or_false] at member
    omega
  obtain ⟨start, same, follows, looked, best, counted⟩ :=
    lone_reached { file with hasValidVersion := true } 0 (fun _ => 0) (tag :: (between ++ later :: rest)) fitsHere
      silentBefore
  have admitsHere := (always.same place searches fitsHere _).mpr ((admits_append _ _ _).mp admits).1
  have foundHere : answer (start.looked + tag.turns - 1) = some 7 := by
    rw [looked]
    exact if_pos (by simp [turnOf])
  obtain ⟨after, does, followsAfter, lookedAfter, bestAfter, countedAfter⟩ :=
    lone_accepts 0 follows rfl searches foundHere admitsHere (.inr best)
  have silentBetween : Silent answer after.looked between := onlyAt_silent fun k member => by
    simp only [List.mem_cons, List.not_mem_nil, or_false] at member
    omega
  rw [List.append_cons] at fits first turnsThere admits
  obtain ⟨middle, sameMiddle, followsMiddle, lookedMiddle, bestMiddle, countedMiddle⟩ :=
    lone_prefix { file with hasValidVersion := true } 0 between followsAfter fits silentBetween
  have lookedThere : middle.looked = turns (given ++ [tag] ++ between) := by omega
  have placeLater : tags = (given ++ [tag] ++ between) ++ later :: rest := by rw [place]; simp
  have foundThere : answer (middle.looked + later.turns - 1) = some 7 := by
    rw [lookedThere]
    exact if_pos (by simp [turnOf])
  obtain ⟨final, doesLast, -, -, bestLast, countedLast⟩ :=
    lone_accepts 0 followsMiddle rfl laterSearches foundThere
      ((always.same placeLater laterSearches fits _).mpr admits) (.inl (followsMiddle.first.trans first))
  have finds := always (lone { file with hasValidVersion := true } answer) 0 (fun _ => 0) 0
  have ended :
      fileSearch (lone { file with hasValidVersion := true } answer) 0 tags (fun _ => 0) 0 = (some 7, final) := by
    rw [place, same, VersionSearch.fileSearchFrom, does, follows.first, highest]
    dsimp only
    rw [sameMiddle, VersionSearch.fileSearchFrom, doesLast, followsMiddle.first, first]
    dsimp only
    rw [bestLast]
  have count := finds.counted 7
  rw [ended, countedLast, countedMiddle, countedAfter, counted] at count
  simp at count

theorem heeded (always : AlwaysFindsBest tags) : Heeded tags :=
  ⟨fun _ _ _ place searches fits => always.same place searches fits,
    fun many _ _ _ place searches lost => always.room many place searches lost,
    fun _ _ _ _ _ place searches laterSearches fits highest first =>
      always.single place searches laterSearches fits highest first⟩

end AlwaysFindsBest

theorem fileSearch_findsBest (tags : List TagArg) : AlwaysFindsBest tags ↔ Heeded tags := by
  constructor
  · exact AlwaysFindsBest.heeded
  · intro heeded folio partialPath useCount looked
    have start : Tracks folio useCount [] [] (initial useCount looked) :=
      ⟨⟨rfl, rfl, rfl⟩, fun file => by simp [initial], fun _ trial member => absurd member List.not_mem_nil,
        fun file held => absurd held (by simp [initial])⟩
    have finds := fileSearchFrom_findsBest partialPath heeded tags rfl (by simp [compared]) start
      fun trial member => absurd member List.not_mem_nil
    rwa [List.nil_append] at finds

theorem fileSearch_verrev_ignored :
    ¬ AlwaysFindsBest [⟨.verrev .ge, 0x200⟩, ⟨.searchItem, 0⟩] := by
  intro always
  have finds := always (lone ⟨1, 0, true⟩ fun _ => some 7) 0 (fun _ => 0) 0
  obtain ⟨trial, member, -, satisfies, -⟩ := finds.found 7 rfl
  have given : trial.given = [⟨.verrev .ge, 0x200⟩] := by
    have trials : FileFolio.trials (lone ⟨1, 0, true⟩ fun _ => some 7) 0 [⟨.verrev .ge, 0x200⟩, ⟨.searchItem, 0⟩] 0 =
      [⟨[⟨.verrev .ge, 0x200⟩], 7⟩] := rfl
    rw [trials, List.mem_singleton] at member
    rw [member]
  have meets := satisfies.2 ⟨.verrev .ge, 0x200⟩ (by rw [given]; exact List.mem_singleton.mpr rfl)
  simp [TagArg.Meets, lone, File.verrev, Relation.Holds] at meets

end Portfolio.FileSearch
