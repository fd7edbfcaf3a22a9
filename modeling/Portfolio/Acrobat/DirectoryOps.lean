import Portfolio.Acrobat.DirectoryChains

set_option autoImplicit false

namespace Portfolio.Acrobat

open Portfolio.Lib

namespace Blocks

variable {fs : AcroFS} {s s' : Blocks} {b c dir par new file : BlockNum} {indx : Nat}
  {deh : EntryBlock} {name : Name} {loose : Option BlockNum} {table : Nat → BlockNum}

theorem live_of_header {entry : Name × BlockNum} (found : s.header b = some entry) :
    (s b).isSome := by
  obtain ⟨deh, here, -⟩ := exists_of_header found
  simp [here]

theorem header_of_live (live : s b = some deh) : s.header b = some (deh.name, deh.parent) := by
  simp [header, live]

theorem next_of_live (live : s b = some deh) : s.next b = deh.nextDirEntry := by
  simp [next, live]

theorem enters_loose :
    s.Enters fs (some file) dir indx b ↔ s.Enters fs none dir indx b ∧ b ≠ file := by
  simp only [Enters, ne_eq, Option.some.injEq, reduceCtorEq, not_false_eq_true, true_and]
  tauto

theorem enters_congr (same : s'.header = s.header) :
    s'.Enters fs loose dir indx b ↔ s.Enters fs loose dir indx b := by
  rw [Enters, Enters, same]

structure SameEntries (s s' : Blocks) : Prop where
  header : s'.header = s.header
  dirs : ∀ d, (s'.hashTable d).isSome = (s.hashTable d).isSome

theorem sameEntries_setNext {link : BlockNum} : SameEntries s (s.setNext b link) where
  header := header_setNext
  dirs d := by rw [hashTable_setNext]

theorem sameEntries_setTable {link : BlockNum} : SameEntries s (s.setTable dir indx link) where
  header := header_setTable
  dirs d := by
    rw [hashTable_setTable]
    by_cases same : d = dir
    · simp [same]
    · simp [same]

namespace Chained

theorem relink {loose' : Option BlockNum} (chained : Chained fs s loose)
    (same : SameEntries s s')
    (chains : ∀ dir table, s'.hashTable dir = some table → ∀ indx < maxDirblockEntries fs,
      ∃ entries, s'.HashChain fs loose' dir indx (table indx) entries)
    (names : ∀ b c name name' par, s.header b = some (name, par) →
      s.header c = some (name', par) → some b ≠ loose' → some c ≠ loose' →
      sameName name name' = true → b = c) : Chained fs s' loose' where
  inVolume b entry found := chained.inVolume b entry (same.header ▸ found)
  inDirectory b name par found := by
    rw [same.dirs]
    exact chained.inDirectory b name par (same.header ▸ found)
  chains := chains
  names := by
    rw [same.header]
    exact names

theorem unlink (chained : Chained fs s none) (found : s.header file = some (name, par))
    (inside : par ≠ NULL_BLOCKNUM) :
    ∃ s', s.unlinkDirEntry fs par file = .ok s' ∧ Chained fs s' (some file) ∧
      SameEntries s s' ∧ s'.next file = s.next file := by
  obtain ⟨deh, live, named, -⟩ := exists_of_header found
  obtain ⟨table, directory⟩ := Option.isSome_iff_exists.mp
    ((chained.inDirectory file name par found).resolve_left inside)
  obtain ⟨entries, hash⟩ := chained.chains par table directory _ (hashName_lt fs name)
  have member : file ∈ entries := (hash.member file).mpr ⟨by simp, name, found, rfl⟩
  obtain ⟨before, rest, rfl⟩ := List.append_of_mem member
  have link : deh.nextDirEntry = s.next file := (next_of_live live).symm
  have apart := hash.nodup
  -- the chains of other indices and directories do not hold the entry
  have others : ∀ s', s'.header = s.header → ∀ dir indx head entries,
      (dir, indx) ≠ (par, hashName fs name) → HashChain fs s none dir indx head entries →
      (∀ b ∈ entries, s'.next b = s.next b) → HashChain fs s' (some file) dir indx head entries := by
    intro s' header dir indx head entries other hash links
    refine hash.congr links fun b => ?_
    rw [enters_congr header, enters_loose, and_iff_left_of_imp]
    rintro ⟨-, name', found', indexed⟩ rfl
    rw [found] at found'
    cases found'
    exact other (by rw [indexed])
  have rejoined : ∀ s' head entries', s'.header = s.header →
      Chain s'.next NULL_BLOCKNUM head entries' → entries' = before ++ rest →
      HashChain fs s' (some file) par (hashName fs name) head entries' := by
    rintro s' head entries' header chain rfl
    refine ⟨chain, (List.nodup_middle.mp apart).of_cons, fun b => ?_⟩
    rw [enters_congr header, enters_loose, ← hash.member b]
    have out := (List.nodup_cons.mp (List.nodup_middle.mp apart)).1
    constructor
    · intro member
      exact ⟨by simp_all; tauto, fun same => out (same ▸ member)⟩
    · rintro ⟨member, other⟩
      simp only [List.mem_append, List.mem_cons] at member ⊢
      tauto
  have names : ∀ b c name name' par, s.header b = some (name, par) →
      s.header c = some (name', par) → some b ≠ some file → some c ≠ some file →
      sameName name name' = true → b = c :=
    fun b c name name' par found found' _ _ same =>
      chained.names b c name name' par found found' (by simp) (by simp) same
  rcases List.eq_nil_or_concat before with first | ⟨before, prev, rfl⟩
  · subst first
    have head : table (hashName fs name) = file := hash.chain.1
    have after := hash.chain.2.2
    refine ⟨s.setTable par (hashName fs name) deh.nextDirEntry, ?_, ?_, sameEntries_setTable, ?_⟩
    · simp [unlinkDirEntry, directory, live, named, head]
    · refine chained.relink sameEntries_setTable (fun dir table' directory' indx bound => ?_) names
      rw [hashTable_setTable] at directory'
      by_cases here : dir = par
      · subst here
        rw [if_pos rfl, directory, Option.map_some, Option.some.injEq] at directory'
        subst directory'
        by_cases same : indx = hashName fs name
        · subst same
          refine ⟨rest, rejoined _ _ _ header_setTable ?_ rfl⟩
          rw [next_setTable, Function.update_self, link]
          exact head ▸ after
        · rw [Function.update_of_ne same]
          obtain ⟨entries', hash'⟩ := chained.chains dir table directory indx bound
          exact ⟨entries', others _ header_setTable _ _ _ _ (by simp [same]) hash' (by simp)⟩
      · rw [if_neg here] at directory'
        obtain ⟨entries', hash'⟩ := chained.chains dir table' directory' indx bound
        exact ⟨entries', others _ header_setTable _ _ _ _ (by simp [here]) hash' (by simp)⟩
    · rw [next_setTable]
  · rw [List.concat_eq_append, List.append_assoc, List.singleton_append] at hash apart
    have prevOut := (List.nodup_cons.mp (List.nodup_middle.mp apart)).1
    have liveOf : ∀ b ∈ before ++ [prev], (s b).isSome := by
      intro b member
      obtain ⟨_, found, -⟩ := hash.live (b := b) (by simp_all; tauto)
      exact live_of_header found
    obtain ⟨prevdeh, prevLive⟩ := Option.isSome_iff_exists.mp (liveOf prev (by simp))
    have head : table (hashName fs name) ≠ file := by
      intro same
      cases before with
      | nil => exact absurd (hash.chain.1.symm.trans same) (by simp_all)
      | cons c before =>
        have first := hash.chain.1
        simp [← first, same] at apart
    have bound : before.length < fs.volumeBlockCount + 1 := by
      have := hash.length_le chained
      simp at this
      omega
    have links : (s.setNext prev deh.nextDirEntry).next = Function.update s.next prev (s.next file) := by
      rw [next_setNext prevLive, link]
    refine ⟨s.setNext prev deh.nextDirEntry, ?_, ?_, sameEntries_setNext, ?_⟩
    · simp [unlinkDirEntry, directory, live, named, head,
        findPrevious_eq hash.chain apart liveOf bound]
    · refine chained.relink sameEntries_setNext (fun dir table' directory' indx bound => ?_) names
      rw [hashTable_setNext] at directory'
      obtain ⟨entries', hash'⟩ := chained.chains dir table' directory' indx bound
      by_cases here : (dir, indx) = (par, hashName fs name)
      · cases here
        rw [directory] at directory'
        cases directory'
        refine ⟨before ++ prev :: rest, rejoined _ _ _ header_setNext ?_ (by simp)⟩
        refine hash.chain.bypass (fun i linked => ?_) (by rw [links, Function.update_self])
        rw [links, Function.update_of_ne]
        rintro rfl
        exact prevOut (List.mem_append.mpr ((List.mem_append.mp linked).imp_right (.tail _)))
      · refine ⟨entries', others _ header_setNext _ _ _ _ here hash' fun b linked => ?_⟩
        rw [links, Function.update_of_ne]
        rintro rfl
        obtain ⟨_, found', indexed⟩ := hash.live (b := b) (by simp)
        obtain ⟨_, found'', indexed'⟩ := hash'.live linked
        rw [found'] at found''
        cases found''
        exact here (by rw [← indexed, indexed'])
    · rw [links, Function.update_of_ne]
      intro same
      exact prevOut (by simp [same])

theorem link_duplicate (chained : Chained fs s (some new)) (found : s.header new = some (name, par))
    (directory : s.hashTable par = some table) {other : Name} (used : s.header b = some (other, par))
    (ne : b ≠ new) (same : sameName other name = true) :
    s.linkDirEntry fs par new = .err .duplicateFile := by
  obtain ⟨deh, live, named, -⟩ := exists_of_header found
  obtain ⟨deh', live', named', -⟩ := exists_of_header used
  obtain ⟨entries, hash⟩ := chained.chains par table directory _ (hashName_lt fs name)
  have member : b ∈ entries :=
    (hash.member b).mpr ⟨by simpa using ne, other, used, hashName_congr fs same⟩
  have scan := lastOfChain_duplicate name none hash.chain
    (fun c member => by
      obtain ⟨_, found, -⟩ := hash.live member
      exact live_of_header found)
    ⟨b, member, deh', live', by rw [named']; exact same⟩
    (Nat.lt_succ_of_le (hash.length_le chained))
  simp only at named named'
  simp [linkDirEntry, directory, live, named, scan]

theorem link (chained : Chained fs s (some new)) (found : s.header new = some (name, par))
    (directory : s.hashTable par = some table) (ends : s.next new = NULL_BLOCKNUM)
    (fresh : ∀ b other, s.header b = some (other, par) → b ≠ new → sameName other name = false) :
    ∃ s', s.linkDirEntry fs par new = .ok s' ∧ Chained fs s' none ∧ SameEntries s s' := by
  obtain ⟨deh, live, named, -⟩ := exists_of_header found
  obtain ⟨entries, hash⟩ := chained.chains par table directory _ (hashName_lt fs name)
  have notNull : new ≠ NULL_BLOCKNUM :=
    Nat.ne_of_lt (lt_of_lt_of_le (chained.inVolume new _ found) fs.addressable)
  have out : new ∉ entries := fun member => ((hash.member new).mp member).1 rfl
  have scan := lastOfChain_fresh name none hash.chain
    (fun c member => by
      obtain ⟨other, found', -⟩ := hash.live member
      obtain ⟨deh', live', named', -⟩ := exists_of_header found'
      refine ⟨deh', live', ?_⟩
      rw [named']
      exact fresh c other found' fun same => out (same ▸ member))
    (Nat.lt_succ_of_le (hash.length_le chained))
  -- with the entry back in, the only chain that it belongs on is the one at its hash
  have others : ∀ s', s'.header = s.header → ∀ dir indx head entries,
      (dir, indx) ≠ (par, hashName fs name) → HashChain fs s (some new) dir indx head entries →
      (∀ b ∈ entries, s'.next b = s.next b) → HashChain fs s' none dir indx head entries := by
    intro s' header dir indx head entries other hash links
    refine hash.congr links fun b => ?_
    rw [enters_congr header, enters_loose, iff_self_and]
    rintro ⟨-, name', found', indexed⟩ rfl
    rw [found] at found'
    cases found'
    exact other (by rw [indexed])
  have joined : ∀ s' head, s'.header = s.header →
      Chain s'.next NULL_BLOCKNUM head (entries ++ [new]) →
      HashChain fs s' none par (hashName fs name) head (entries ++ [new]) := by
    intro s' head header chain
    refine ⟨chain, List.nodup_append.mpr ⟨hash.nodup, List.nodup_singleton new, ?_⟩, fun b => ?_⟩
    · rintro b member _ last rfl
      rw [List.mem_singleton.mp last] at member
      exact out member
    · rw [enters_congr header, List.mem_append, List.mem_singleton, hash.member b, enters_loose]
      constructor
      · rintro (⟨enters, -⟩ | rfl)
        · exact enters
        · exact ⟨by simp, name, found, rfl⟩
      · intro enters
        by_cases same : b = new
        · exact .inr same
        · exact .inl ⟨enters, same⟩
  have names : ∀ b c name name' par, s.header b = some (name, par) →
      s.header c = some (name', par) → some b ≠ none → some c ≠ none →
      sameName name name' = true → b = c := by
    intro b c other other' dir found' found'' _ _ same
    by_cases first : b = new
    · subst first
      rw [found] at found'
      cases found'
      by_contra ne
      have different := fresh c other' found'' fun same => ne same.symm
      rw [Bool.eq_false_iff] at different
      exact different (sameName_iff.mpr (sameName_iff.mp same).symm)
    · by_cases second : c = new
      · subst second
        rw [found] at found''
        cases found''
        have different := fresh b other found' first
        rw [same] at different
        cases different
      · exact chained.names b c other other' dir found' found'' (by simpa using first)
          (by simpa using second) same
  simp only at named
  rcases List.eq_nil_or_concat entries with empty | ⟨before, last, rfl⟩
  · subst empty
    refine ⟨s.setTable par (hashName fs name) new, ?_, ?_, sameEntries_setTable⟩
    · simp [linkDirEntry, directory, live, named, scan]
    · refine chained.relink sameEntries_setTable (fun dir table' directory' indx bound => ?_) names
      rw [hashTable_setTable] at directory'
      by_cases here : dir = par
      · subst here
        rw [if_pos rfl, directory, Option.map_some, Option.some.injEq] at directory'
        subst directory'
        by_cases same : indx = hashName fs name
        · subst same
          refine ⟨[new], joined _ _ header_setTable ?_⟩
          rw [next_setTable, Function.update_self]
          exact ⟨rfl, notNull, ends⟩
        · rw [Function.update_of_ne same]
          obtain ⟨entries', hash'⟩ := chained.chains dir table directory indx bound
          exact ⟨entries', others _ header_setTable _ _ _ _ (by simp [same]) hash' (by simp)⟩
      · rw [if_neg here] at directory'
        obtain ⟨entries', hash'⟩ := chained.chains dir table' directory' indx bound
        exact ⟨entries', others _ header_setTable _ _ _ _ (by simp [here]) hash' (by simp)⟩
  · rw [List.concat_eq_append] at hash out scan joined
    obtain ⟨_, lastFound, indexed⟩ := hash.live (b := last) (by simp)
    obtain ⟨lastDeh, lastLive, -⟩ := exists_of_header lastFound
    have links : (s.setNext last new).next = Function.update s.next last new :=
      next_setNext lastLive
    refine ⟨s.setNext last new, ?_, ?_, sameEntries_setNext⟩
    · simp [linkDirEntry, directory, live, named, scan]
    · refine chained.relink sameEntries_setNext (fun dir table' directory' indx bound => ?_) names
      rw [hashTable_setNext] at directory'
      obtain ⟨entries', hash'⟩ := chained.chains dir table' directory' indx bound
      by_cases here : (dir, indx) = (par, hashName fs name)
      · cases here
        rw [directory] at directory'
        cases directory'
        refine ⟨before ++ [last] ++ [new], joined _ _ header_setNext ?_⟩
        refine hash.chain.append_last hash.nodup (fun i linked => ?_) ?_ ?_ notNull
        · rw [links, Function.update_of_ne]
          rintro rfl
          exact (List.nodup_append.mp hash.nodup).2.2 i linked i (by simp) rfl
        · rw [links, Function.update_self]
        · rw [links, Function.update_of_ne, ends]
          rintro rfl
          simp at out
      · refine ⟨entries', others _ header_setNext _ _ _ _ here hash' fun b linked => ?_⟩
        rw [links, Function.update_of_ne]
        rintro rfl
        obtain ⟨_, found', indexed'⟩ := hash'.live linked
        rw [lastFound] at found'
        cases found'
        exact here (by rw [← indexed, indexed'])

theorem revise (chained : Chained fs s loose)
    (off : loose = some b ∨ loose = none ∧ s.header b = none)
    (header : s'.header = Function.update s.header b (some (name, par))) (links : s'.next = s.next)
    (tables : ∀ d table, s'.hashTable d = some table → s.hashTable d = some table ∨
      d = b ∧ table = (fun _ => NULL_BLOCKNUM) ∧ ∀ c other, s.header c ≠ some (other, b))
    (kept : ∀ d, (s.hashTable d).isSome → (s'.hashTable d).isSome)
    (inVolume : b < fs.volumeBlockCount)
    (inDirectory : par = NULL_BLOCKNUM ∨ (s'.hashTable par).isSome) :
    Chained fs s' (some b) := by
  have linked : ∀ c, c ≠ b → some c ≠ loose := by
    rintro c ne same
    rcases off with out | ⟨out, -⟩
    · exact ne (Option.some.inj (same.trans out))
    · cases same.trans out
  have entersIff : ∀ d indx c, s'.Enters fs (some b) d indx c ↔ s.Enters fs loose d indx c := by
    intro d indx c
    by_cases same : c = b
    · subst same
      refine iff_of_false (fun enters => enters.1 rfl) ?_
      rintro ⟨ne, other, found, -⟩
      rcases off with out | ⟨-, out⟩
      · exact ne out.symm
      · rw [out] at found
        cases found
    · rw [Enters, Enters, header, Function.update_of_ne same]
      exact and_congr_left fun _ => iff_of_true (by simpa using same) (linked c same)
  refine ⟨fun c entry found => ?_, fun c other d found => ?_, fun d table directory indx bound => ?_,
    fun c c' other other' d found found' ne ne' same => ?_⟩
  · by_cases same : c = b
    · exact same ▸ inVolume
    · rw [header, Function.update_of_ne same] at found
      exact chained.inVolume c entry found
  · by_cases same : c = b
    · rw [header, same, Function.update_self] at found
      cases found
      exact inDirectory
    · rw [header, Function.update_of_ne same] at found
      exact (chained.inDirectory c other d found).imp_right (kept d)
  · rcases tables d table directory with old | ⟨rfl, rfl, childless⟩
    · obtain ⟨entries, hash⟩ := chained.chains d table old indx bound
      exact ⟨entries, hash.congr (fun _ _ => by rw [links]) (entersIff d indx)⟩
    · refine ⟨[], rfl, List.nodup_nil, fun c => iff_of_false (by simp) ?_⟩
      rw [entersIff]
      rintro ⟨-, other, found, -⟩
      exact childless c other found
  · have ne : c ≠ b := by simpa using ne
    have ne' : c' ≠ b := by simpa using ne'
    rw [header, Function.update_of_ne ne] at found
    rw [header, Function.update_of_ne ne'] at found'
    exact chained.names c c' other other' d found found' (linked c ne) (linked c' ne') same

theorem free (chained : Chained fs s (some file)) (childless : ∀ c other, s.header c ≠ some (other, file))
    (header : s'.header = Function.update s.header file none)
    (links : s'.next = Function.update s.next file NULL_BLOCKNUM)
    (tables : s'.hashTable = Function.update s.hashTable file none) : Chained fs s' none := by
  have keptHeader : ∀ c entry, s'.header c = some entry → c ≠ file ∧ s.header c = some entry := by
    intro c entry found
    by_cases same : c = file
    · rw [header, same, Function.update_self] at found
      cases found
    · rw [header, Function.update_of_ne same] at found
      exact ⟨same, found⟩
  have entersIff : ∀ d indx c, s'.Enters fs none d indx c ↔ s.Enters fs (some file) d indx c := by
    intro d indx c
    by_cases same : c = file
    · subst same
      refine iff_of_false ?_ fun enters => enters.1 rfl
      rintro ⟨-, other, found, -⟩
      exact (keptHeader c _ found).1 rfl
    · rw [Enters, Enters, header, Function.update_of_ne same]
      exact and_congr_left fun _ => iff_of_true (by simp) (by simpa using same)
  refine ⟨fun c entry found => ?_, fun c other d found => ?_, fun d table directory indx bound => ?_,
    fun c c' other other' d found found' _ _ same => ?_⟩
  · exact chained.inVolume c entry (keptHeader c entry found).2
  · have found := (keptHeader c _ found).2
    refine (chained.inDirectory c other d found).imp_right fun directory => ?_
    rw [tables, Function.update_of_ne]
    · exact directory
    · rintro rfl
      exact childless c other found
  · have there : d ≠ file := by
      rintro rfl
      rw [tables, Function.update_self] at directory
      cases directory
    rw [tables, Function.update_of_ne there] at directory
    obtain ⟨entries, hash⟩ := chained.chains d table directory indx bound
    refine ⟨entries, hash.congr (fun c linked => ?_) (entersIff d indx)⟩
    rw [links, Function.update_of_ne]
    rintro rfl
    exact ((hash.member c).mp linked).1 rfl
  · obtain ⟨ne, found⟩ := keptHeader c _ found
    obtain ⟨ne', found'⟩ := keptHeader c' _ found'
    exact chained.names c c' other other' d found found' (by simpa using ne) (by simpa using ne')
      same

end Chained

end Blocks

end Portfolio.Acrobat
