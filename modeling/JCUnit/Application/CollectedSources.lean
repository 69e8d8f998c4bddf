import JCUnit.Application.FetchSources

/-!
# When the sources are collected as they should be

What is collected is right as long as the table has room, and as long as no walk starts at the
root directory, whose files get a path with a doubled separator.
-/

namespace JCUnit

open FirstOccurrences

section Collecting

variable {fs} {args : List CString} {resolved path : CString} {below : Location}

theorem discoveredAt_walkPath (hresolved : pathOf (locate resolved) = resolved)
    (hroot : fsIsDir fs (pathOf []) = true → resolved = pathOf [] → testFiles fs [] = []) :
    discoveredAt fs walkPath resolved = discoveredAt fs resolvedName resolved := by
  unfold discoveredAt
  by_cases hdir : fsIsDir fs resolved = true
  · rw [if_pos hdir, if_pos hdir]
    by_cases hstart : locate resolved = []
    · have hpath : resolved = pathOf [] := by rw [← hresolved, hstart]
      rw [hpath] at hdir
      rw [hstart, hroot hdir hpath]
      rfl
    · apply List.map_congr_left
      intro below _
      exact walkPath_eq_pathOf hstart
  · rw [if_neg hdir, if_neg hdir]

/-- Where no test file is found from the root directory, the walks spell every path as
`realpath` does. -/
theorem discoveries_walkPath (hroot : WalksRoot fs args → testFiles fs [] = []) :
    discoveries fs walkPath args = discoveries fs resolvedName args := by
  have hoffers : offers fs walkPath args = offers fs resolvedName args := by
    unfold offers
    apply List.flatMap_congr
    intro arg harg
    apply List.flatMap_congr
    intro resolved hresolved
    obtain ⟨harg, hoption⟩ := List.mem_filter.mp harg
    have hrealpath := Option.mem_toList.mp hresolved
    apply discoveredAt_walkPath (pathOf_locate_resolved hrealpath)
    rintro hdir rfl
    exact hroot ⟨hdir, Or.inl ⟨arg, harg, by simpa using hoption, hrealpath⟩⟩
  unfold discoveries
  rw [hoffers]
  split
  · rename_i hnone
    apply List.flatMap_congr
    intro resolved hresolved
    have hdefault := Option.mem_toList.mp hresolved
    apply discoveredAt_walkPath (pathOf_locate_resolved (mem_defaultDirectory.mp hdefault).1)
    rintro hdir rfl
    exact hroot ⟨hdir, Or.inr ⟨hnone, hdefault⟩⟩
  · rfl

theorem ne_nil_of_mem_testFiles {start : Location} (h : below ∈ testFiles fs start) :
    below ≠ [] := by
  obtain ⟨dir, -, hfile⟩ := List.mem_flatMap.mp h
  obtain ⟨entry, -, rfl⟩ := List.mem_map.mp hfile
  exact List.append_ne_nil_of_right_ne_nil _ (List.cons_ne_nil _ _)

theorem discoveredAt_root (hdir : fsIsDir fs (pathOf []) = true) (h : below ∈ testFiles fs []) :
    walkPath [] below ∈ discoveredAt fs walkPath (pathOf []) := by
  unfold discoveredAt
  rw [if_pos hdir, locate_pathOf]
  exact List.mem_map_of_mem h

/-- A test file that is found from the root directory goes under a path of its own. -/
theorem mem_discoveries_root (hroot : WalksRoot fs args) (h : below ∈ testFiles fs []) :
    walkPath [] below ∈ discoveries fs walkPath args := by
  obtain ⟨hdir, hwalked⟩ := hroot
  have hfound := discoveredAt_root hdir h
  unfold discoveries
  rcases hwalked with ⟨arg, harg, hoption, hresolved⟩ | ⟨hnone, hdefault⟩
  · have hoffer : walkPath [] below ∈ offers fs walkPath args := by
      refine List.mem_flatMap.mpr ⟨arg, List.mem_filter.mpr ⟨harg, by simp [hoption]⟩, ?_⟩
      exact List.mem_flatMap.mpr ⟨pathOf [], Option.mem_toList.mpr hresolved, hfound⟩
    rw [if_neg (List.ne_nil_of_mem hoffer)]
    exact hoffer
  · rw [if_pos ((offers_eq_nil_of_naming walkPath).mpr hnone)]
    exact List.mem_flatMap.mpr ⟨pathOf [], Option.mem_toList.mpr hdefault, hfound⟩

theorem discoveries_nothing {name : Naming} (h : NothingToDo fs args) :
    discoveries fs name args = [] := by
  unfold discoveries
  rw [if_pos ((offers_eq_nil_of_naming name).mpr h.1), h.2]
  rfl

theorem FoundAt.exists_pathOf (hresolved : pathOf (locate resolved) = resolved)
    (h : FoundAt fs resolved path) : ∃ location, path = pathOf location := by
  unfold FoundAt at h
  split at h
  · obtain ⟨file, -, hpath⟩ := h
    exact ⟨file, hpath⟩
  · exact ⟨locate resolved, h.trans hresolved.symm⟩

theorem Wanted.exists_pathOf (h : Wanted fs args path) : ∃ location, path = pathOf location := by
  rcases h with ⟨arg, -, -, resolved, hresolved, hfound⟩ | ⟨-, resolved, hresolved, -, hfound⟩
  · exact hfound.exists_pathOf (pathOf_locate_resolved hresolved)
  · exact hfound.exists_pathOf (pathOf_locate_resolved hresolved)

/-- The sources are collected as they should be exactly if there are no more of them than the
table has entries, and no test file is found by walking through the root directory. -/
theorem collectsSources_iff (fs : FileSystem) (args : List CString)
    (hargs : ∀ arg ∈ args, isOption arg = false → (fs.realpath arg).isSome) :
    CollectsSources fs args ↔
      (discoveries fs resolvedName args).toFinset.card ≤ sourcesCacheSize ∧
        (WalksRoot fs args → testFiles fs [] = []) := by
  by_cases hnothing : NothingToDo fs args
  · apply iff_of_true
    · exact Or.inl ⟨hnothing, fetchSources_nothing hargs hnothing⟩
    · constructor
      · rw [discoveries_nothing hnothing]
        exact Nat.zero_le _
      · intro hwalks
        apply List.eq_nil_iff_forall_not_mem.mpr
        intro below hbelow
        have hfound := mem_discoveries_root hwalks hbelow
        rw [discoveries_nothing hnothing] at hfound
        cases hfound
  · have hfetch := fetchSources_eq hargs hnothing
    rw [firsts_length] at hfetch
    have hlists := firsts_lists (discoveries fs walkPath args)
    constructor
    · rintro (⟨h, -⟩ | ⟨sources, hsources, hwanted, -⟩)
      · exact absurd h hnothing
      · rw [hfetch] at hsources
        split at hsources
        · rename_i hroom
          cases hsources
          have hroot : WalksRoot fs args → testFiles fs [] = [] := by
            intro hwalks
            apply List.eq_nil_iff_forall_not_mem.mpr
            intro below hbelow
            have hfound := (hlists.mem_iff _).mpr (mem_discoveries_root hwalks hbelow)
            obtain ⟨location, hlocation⟩ := ((hwanted _).mp hfound).exists_pathOf
            exact walkPath_root_ne (ne_nil_of_mem_testFiles hbelow) location hlocation
          rw [discoveries_walkPath hroot] at hroom
          exact ⟨hroom, hroot⟩
        · cases hsources
    · rintro ⟨hroom, hroot⟩
      rw [discoveries_walkPath hroot] at hfetch hlists
      rw [if_pos hroom] at hfetch
      refine Or.inr ⟨_, hfetch, fun path => ?_, hlists⟩
      rw [hlists.mem_iff, mem_discoveries]

end Collecting

section CrowdedDirectory

theorem digit_ne {k : Nat} {b : Byte} (hk : k < 64) (hb : b.toNat < 48) :
    b ≠ (48 + k).toUInt8 := by
  rintro rfl
  simp at hb
  omega

theorem digit_inj {k l : Nat} (hk : k < 64) (hl : l < 64)
    (h : (48 + k).toUInt8 = (48 + l).toUInt8) : k = l := by
  have htoNat := congrArg UInt8.toNat h
  simp at htoNat
  omega

/-- The name of the test file with this number: two digits to the base 64. -/
def testName (i : Nat) : FileName where
  bytes := (48 + i / 64 % 64).toUInt8 :: (48 + i % 64).toUInt8 :: testExtension.bytes
  nulFree := by
    have hdigit : ∀ k, (0 : Byte) ≠ (48 + k % 64).toUInt8 := fun k =>
      digit_ne (Nat.mod_lt k (by decide)) (by decide)
    exact List.not_mem_cons_of_ne_of_not_mem (hdigit _)
      (List.not_mem_cons_of_ne_of_not_mem (hdigit _) testExtension.nulFree)
  unbroken := by
    have hdigit : ∀ k, pathSeparator ≠ (48 + k % 64).toUInt8 := fun k =>
      digit_ne (Nat.mod_lt k (by decide)) (by decide)
    exact List.not_mem_cons_of_ne_of_not_mem (hdigit _)
      (List.not_mem_cons_of_ne_of_not_mem (hdigit _) (by decide))
  nonempty := List.cons_ne_nil _ _

theorem testName_inj {i j : Nat} (hi : i < 4096) (hj : j < 4096) (h : testName i = testName j) :
    i = j := by
  obtain ⟨hhigh, hrest⟩ := List.cons.inj (congrArg FileName.bytes h)
  obtain ⟨hlow, -⟩ := List.cons.inj hrest
  have hhigh := digit_inj (Nat.mod_lt _ (by decide)) (Nat.mod_lt _ (by decide)) hhigh
  have hlow := digit_inj (Nat.mod_lt _ (by decide)) (Nat.mod_lt _ (by decide)) hlow
  omega

def testEntry (i : Nat) : Dirent := ⟨testName i, .regular⟩

theorem testEntry_isTestFile (i : Nat) : (testEntry i).isTestFile = true := by
  have hsuffix : testExtension.bytes <:+ (testName i).bytes :=
    (List.suffix_cons _ _).trans (List.suffix_cons _ _)
  unfold Dirent.isTestFile
  rw [Bool.and_eq_true, List.isSuffixOf_iff_suffix]
  exact ⟨rfl, hsuffix⟩

def directoryName : FileName := ⟨ascii "t", by decide, by decide, by decide⟩

/-- A root directory with one directory, and that many test files in this one. -/
def crowdedNode (n : Nat) : Location → Option Node
  | [] => some (.directory [⟨directoryName, .directory⟩])
  | [name] =>
      if name = directoryName then some (.directory ((List.range n).map testEntry)) else none
  | [name, file] =>
      if name = directoryName ∧ file ∈ (List.range n).map testName then some .file else none
  | _ => none

theorem crowdedNode_some {n : Nat} {location : Location} {node : Node}
    (h : crowdedNode n location = some node) :
    location = [] ∧ node = .directory [⟨directoryName, .directory⟩] ∨
      location = [directoryName] ∧ node = .directory ((List.range n).map testEntry) ∨
      location.length = 2 ∧ node = .file := by
  unfold crowdedNode at h
  split at h
  · cases h
    exact Or.inl ⟨rfl, rfl⟩
  · split at h
    · rename_i hname
      cases h
      exact Or.inr (Or.inl ⟨by rw [hname], rfl⟩)
    · cases h
  · split at h
    · cases h
      exact Or.inr (Or.inr ⟨rfl, rfl⟩)
    · cases h
  · cases h

def crowded (n : Nat) (hn : n ≤ 4096) : FileSystem where
  node := crowdedNode n
  realpath path := if path = pathOf [directoryName] then some path else none
  depth := 2
  bounded := by
    intro location hnode
    obtain ⟨node, hnode⟩ := Option.isSome_iff_exists.mp hnode
    rcases crowdedNode_some hnode with ⟨rfl, -⟩ | ⟨rfl, -⟩ | ⟨hlength, -⟩
    · decide
    · decide
    · exact Nat.le_of_eq hlength
  subdirectory := by
    intro location entries entry hnode hentry hsub
    rcases crowdedNode_some hnode with ⟨rfl, heq⟩ | ⟨rfl, heq⟩ | ⟨-, heq⟩
    · cases heq
      rw [List.mem_singleton.mp hentry]
      exact ⟨_, rfl⟩
    · cases heq
      obtain ⟨i, -, rfl⟩ := List.mem_map.mp hentry
      cases hsub
    · cases heq
  regular := by
    intro location entries entry hnode hentry hregular
    rcases crowdedNode_some hnode with ⟨rfl, heq⟩ | ⟨rfl, heq⟩ | ⟨-, heq⟩
    · cases heq
      rw [List.mem_singleton.mp hentry] at hregular
      cases hregular
    · cases heq
      obtain ⟨i, hi, rfl⟩ := List.mem_map.mp hentry
      exact if_pos ⟨rfl, List.mem_map_of_mem hi⟩
    · cases heq
  once := by
    intro location entries hnode
    rcases crowdedNode_some hnode with ⟨-, heq⟩ | ⟨-, heq⟩ | ⟨-, heq⟩
    · cases heq
      exact List.nodup_singleton _
    · cases heq
      rw [List.map_map]
      apply List.nodup_range.map_on
      intro i hi j hj h
      have hi := List.mem_range.mp hi
      have hj := List.mem_range.mp hj
      exact testName_inj (hi.trans_le hn) (hj.trans_le hn) h
    · cases heq
  resolved := by
    intro path resolved h
    split at h
    · rename_i hpath
      cases h
      exact ⟨[directoryName], hpath, rfl⟩
    · cases h

section Runs

variable {n : Nat} {hn : n ≤ 4096}

theorem crowded_node : (crowded n hn).node [directoryName] =
    some (.directory ((List.range n).map testEntry)) := by
  simp [crowded, crowdedNode]

theorem crowded_realpath : (crowded n hn).realpath (pathOf [directoryName]) =
    some (pathOf [directoryName]) := by
  simp [crowded]

theorem crowded_listing :
    (crowded n hn).listing [directoryName] = (List.range n).map testEntry := by
  rw [FileSystem.listing, crowded_node]
  rfl

theorem crowded_testFiles :
    testFiles (crowded n hn) [directoryName] = (List.range n).map fun i => [testName i] := by
  have hsubs : subLocations (crowded n hn) [directoryName] [] = [] := by
    rw [subLocations, List.append_nil, crowded_listing, List.map_eq_nil_iff,
      List.filter_eq_nil_iff]
    intro entry hentry
    obtain ⟨i, -, rfl⟩ := List.mem_map.mp hentry
    exact Bool.false_ne_true
  have hdirs : directoriesBelow (crowded n hn) [directoryName] = [[]] := by
    change [[]] ++ LevelOrder.levels _ 2 ([[]].flatMap _) = _
    rw [List.flatMap_singleton, hsubs]
    rfl
  have hfilter : ((List.range n).map testEntry).filter Dirent.isTestFile =
      (List.range n).map testEntry := by
    apply List.filter_eq_self.mpr
    intro entry hentry
    obtain ⟨i, -, rfl⟩ := List.mem_map.mp hentry
    exact testEntry_isTestFile i
  rw [testFiles, hdirs, List.flatMap_singleton, testFilesIn, List.append_nil, crowded_listing,
    hfilter, List.map_map]
  rfl

theorem crowded_isDir : fsIsDir (crowded n hn) (pathOf [directoryName]) = true := by
  have hnode : (crowded n hn).node (locate (pathOf [directoryName])) =
      some (.directory ((List.range n).map testEntry)) := by
    rw [locate_pathOf, crowded_node]
  unfold fsIsDir
  rw [opendir_of_node hnode]
  rfl

/-- The run over the directory finds its test files. -/
theorem crowded_offers (name : Naming) :
    offers (crowded n hn) name [pathOf [directoryName]] =
      (List.range n).map fun i => name [directoryName] [testName i] := by
  have hfound : discoveredAt (crowded n hn) name (pathOf [directoryName]) =
      (List.range n).map fun i => name [directoryName] [testName i] := by
    rw [discoveredAt, if_pos crowded_isDir, locate_pathOf, crowded_testFiles, List.map_map]
    rfl
  change [pathOf [directoryName]].flatMap _ = _
  rw [List.flatMap_singleton, crowded_realpath, Option.toList_some, List.flatMap_singleton, hfound]

theorem crowded_discoveries (name : Naming) (hpos : 0 < n) :
    discoveries (crowded n hn) name [pathOf [directoryName]] =
      (List.range n).map fun i => name [directoryName] [testName i] := by
  have hoffers : offers (crowded n hn) name [pathOf [directoryName]] =
      (List.range n).map fun i => name [directoryName] [testName i] := crowded_offers name
  unfold discoveries
  rw [if_neg, hoffers]
  rw [hoffers]
  intro hnil
  have hrange := List.map_eq_nil_iff.mp hnil
  rw [List.range_eq_nil] at hrange
  omega

theorem crowded_resolves : ∀ arg ∈ [pathOf [directoryName]], isOption arg = false →
    ((crowded n hn).realpath arg).isSome := by
  intro arg harg _
  rw [List.mem_singleton.mp harg, crowded_realpath]
  rfl

/-- Two test files in a directory are collected. -/
theorem collectsSources_two_files :
    CollectsSources (crowded 2 (by decide)) [pathOf [directoryName]] := by
  apply (collectsSources_iff _ _ crowded_resolves).mpr
  constructor
  · rw [crowded_discoveries _ (by decide)]
    apply (List.toFinset_card_le _).trans
    rw [List.length_map, List.length_range]
    decide
  · rintro ⟨-, ⟨arg, harg, -, hroot⟩ | ⟨hnone, -⟩⟩
    · rw [List.mem_singleton.mp harg] at hroot
      exact absurd hroot (by decide)
    · rw [crowded_offers] at hnone
      cases hnone

/-- The 1025th test file of a directory goes behind the end of the table. -/
theorem crowded_directory_overflows :
    fetchSources (crowded 1025 (by decide)) [pathOf [directoryName]] = .error .undefined ∧
      ¬CollectsSources (crowded 1025 (by decide)) [pathOf [directoryName]] := by
  have hnothing : ¬NothingToDo (crowded 1025 (by decide)) [pathOf [directoryName]] := by
    rintro ⟨hnone, -⟩
    rw [crowded_offers, List.map_eq_nil_iff, List.range_eq_nil] at hnone
    cases hnone
  have hnodup : ((List.range 1025).map fun i => walkPath [directoryName] [testName i]).Nodup := by
    apply List.nodup_range.map_on
    intro i hi j hj h
    have hlocate := congrArg locate h
    rw [locate_walkPath, locate_walkPath] at hlocate
    have hname := (List.cons.inj (List.append_cancel_left hlocate)).1
    have hi := List.mem_range.mp hi
    have hj := List.mem_range.mp hj
    exact testName_inj (hi.trans (by decide)) (hj.trans (by decide)) hname
  have hoverflow : fetchSources (crowded 1025 (by decide)) [pathOf [directoryName]] =
      .error .undefined := by
    rw [fetchSources_eq crowded_resolves hnothing, crowded_discoveries _ (by decide),
      firsts_length, List.toFinset_card_of_nodup hnodup, List.length_map, List.length_range]
    rfl
  refine ⟨hoverflow, ?_⟩
  rintro (⟨h, -⟩ | ⟨sources, hsources, -⟩)
  · exact hnothing h
  · rw [hoverflow] at hsources
    cases hsources

end Runs

end CrowdedDirectory

end JCUnit
