import JCUnit.Application.DirectoryWalk
import JCUnit.Foundation.FirstOccurrences

/-!
# Collecting the sources

`fetch_sources` and its two ways to a source, the argument itself and the walk through a
directory. The sources should be the files that were named and the `.test` files of the
directories that were named, each once. The table that remembers them has a fixed size, and
nothing looks whether it is full.
-/

namespace JCUnit

open FirstOccurrences StateError

/-- `SOURCES_CACHE_POS`: the size of `sources_cache`. -/
def sourcesCacheSize : Nat := 1024

def defaultTestsPath : CString := ⟨ascii "./tests", by decide⟩

def testExtension : CString := ⟨ascii ".test", by decide⟩

/-- The entries of `sources_cache` below `sources_cache_pos`, and the list of the sources. -/
structure FetchState where
  sourcesCache : List CString
  sources : List CString
deriving DecidableEq

variable (fs : FileSystem)

/-- `fetch_one_source`. A store behind the end of the table is undefined. -/
def fetchOneSource (state : FetchState) (sourcePath : CString) : Except Halt FetchState :=
  if !fsIsFileExists fs sourcePath then
    .error (fatalError (ascii "The file \"" ++ sourcePath.bytes ++ ascii "\" is not exists!"))
  else if sourcePath ∈ state.sourcesCache then .ok state
  else if state.sourcesCache.length < sourcesCacheSize then
    .ok ⟨state.sourcesCache ++ [sourcePath], state.sources ++ [sourcePath]⟩
  else .error .undefined

def fetchDirectorySources : FsReadDirFunc FetchState := fun sourcePath state =>
  if !fsCheckExtension sourcePath (some testExtension) then .ok (true, state)
  else do
    let state ← fetchOneSource fs state sourcePath
    return (true, state)

/-- `strncmp("--", arg, 2) == 0`. -/
def isOption (arg : CString) : Bool :=
  arg.bytes.take 2 == ascii "--"

/-- A round of the loop over the arguments. -/
def fetchArgument (state : FetchState) (arg : CString) : Except Halt FetchState :=
  if isOption arg then .ok state
  else
    match fs.realpath arg with
    | none =>
        .error (fatalError (ascii "Can't to resolve the path \"" ++ arg.bytes ++ ascii "\"!"))
    | some resolvedPath =>
        if fsIsDir fs resolvedPath then
          fsReadDir fs resolvedPath (fetchDirectorySources fs) state
        else fetchOneSource fs state resolvedPath

def fetchDefaultSources (state : FetchState) : Except Halt FetchState :=
  match fs.realpath defaultTestsPath with
  | none =>
      .error (fatalError (ascii "There are no files provided or default tests path \"" ++
        defaultTestsPath.bytes ++ ascii "\" not found!"))
  | some resolvedPath =>
      if !fsIsDir fs resolvedPath then
        .error (fatalError (ascii "Can't found the specified directory \"" ++
          defaultTestsPath.bytes ++ ascii "\"!"))
      else fsReadDir fs resolvedPath (fetchDirectorySources fs) state

/-- `fetch_sources` over the arguments behind the program's name. -/
def fetchSources (args : List CString) : Except Halt (List CString) := do
  let state ← args.foldlM (fetchArgument fs) ⟨[], []⟩
  let state ← if state.sources = [] then fetchDefaultSources fs state else .ok state
  return state.sources

section Specification

/-- A regular file whose name ends in `.test`. -/
def Dirent.isTestFile (entry : Dirent) : Bool :=
  entry.isRegular && testExtension.bytes.isSuffixOf entry.name.bytes

/-- A test file in the directory at this location or in one below it. -/
def TestFileUnder (start file : Location) : Prop :=
  ∃ location entry, DirectoryUnder fs start location ∧ entry ∈ fs.listing location ∧
    entry.isTestFile = true ∧ file = location ++ [entry.name]

/-- The source that a resolved path stands for, or the sources in the directory there. -/
def FoundAt (resolved path : CString) : Prop :=
  if fsIsDir fs resolved then ∃ file, TestFileUnder fs (locate resolved) file ∧ path = pathOf file
  else path = resolved

/-- The path of a source that was named, or that lies in a directory that was named. -/
def Offered (args : List CString) (path : CString) : Prop :=
  ∃ arg ∈ args, isOption arg = false ∧ ∃ resolved, fs.realpath arg = some resolved ∧
    FoundAt fs resolved path

/-- The path of a source of the run. The default directory counts only if there is no other. -/
def Wanted (args : List CString) (path : CString) : Prop :=
  Offered fs args path ∨ (∀ other, ¬Offered fs args other) ∧ ∃ resolved,
    fs.realpath defaultTestsPath = some resolved ∧ fsIsDir fs resolved = true ∧
      FoundAt fs resolved path

/-- The test files in a directory, and in those below it. -/
def testFilesIn (start below : Location) : List Location :=
  ((fs.listing (start ++ below)).filter Dirent.isTestFile).map fun entry => below ++ [entry.name]

def testFiles (start : Location) : List Location :=
  (directoriesBelow fs start).flatMap (testFilesIn fs start)

/-- How a file some way below a start is called. -/
abbrev Naming := Location → Location → CString

/-- The name by which a file is known wherever it is come from. -/
def resolvedName : Naming := fun start below => pathOf (start ++ below)

variable (name : Naming)

/-- What is found at a resolved path, in the order in which it is found. -/
def discoveredAt (resolved : CString) : List CString :=
  if fsIsDir fs resolved then (testFiles fs (locate resolved)).map (name (locate resolved))
  else [resolved]

/-- What the arguments lead to. -/
def offers (args : List CString) : List CString :=
  (args.filter fun arg => !isOption arg).flatMap fun arg =>
    (fs.realpath arg).toList.flatMap (discoveredAt fs name)

/-- The default directory, if it is there. -/
def defaultDirectory : Option CString :=
  (fs.realpath defaultTestsPath).filter (fsIsDir fs)

/-- All discoveries of a run, in order. -/
def discoveries (args : List CString) : List CString :=
  if offers fs name args = [] then (defaultDirectory fs).toList.flatMap (discoveredAt fs name)
  else offers fs name args

/-- No source was named or found and there is no default directory. -/
def NothingToDo (args : List CString) : Prop :=
  offers fs resolvedName args = [] ∧ defaultDirectory fs = none

/-- The list of the sources is what it should be: every source of the run, once, in the order
of the first discoveries. Only where there is nothing to do, the run ends in a fatal error. -/
def CollectsSources (args : List CString) : Prop :=
  (NothingToDo fs args ∧ ∃ message, fetchSources fs args = .error (fatalError message)) ∨
    ∃ sources, fetchSources fs args = .ok sources ∧
      (∀ path, path ∈ sources ↔ Wanted fs args path) ∧
      Lists (discoveries fs resolvedName args) sources

/-- The root directory is walked through. -/
def WalksRoot (args : List CString) : Prop :=
  fsIsDir fs (pathOf []) = true ∧
    ((∃ arg ∈ args, isOption arg = false ∧ fs.realpath arg = some (pathOf [])) ∨
      offers fs resolvedName args = [] ∧ defaultDirectory fs = some (pathOf []))

end Specification

section Extensions

theorem strrchr_suffix {c : Byte} {s found : Bytes} (h : strrchr c s = some found) :
    found <:+ s := by
  induction s with
  | nil => cases h
  | cons b rest ih =>
      unfold strrchr at h
      cases hrest : strrchr c rest with
      | some later =>
          rw [hrest] at h ih
          exact (ih h).trans (List.suffix_cons b rest)
      | none =>
          simp only [hrest] at h
          split at h
          · cases h
            exact List.suffix_rfl
          · cases h

theorem strrchr_none {c : Byte} {s : Bytes} (h : c ∉ s) : strrchr c s = none := by
  induction s with
  | nil => rfl
  | cons b rest ih =>
      have hb : b ≠ c := (List.ne_of_not_mem_cons h).symm
      unfold strrchr
      simp only [ih (List.not_mem_of_not_mem_cons h), if_neg hb]

theorem strrchr_append {c : Byte} (before : Bytes) {behind : Bytes} (h : c ∉ behind) :
    strrchr c (before ++ c :: behind) = some (c :: behind) := by
  induction before with
  | nil =>
      rw [List.nil_append]
      unfold strrchr
      simp only [strrchr_none h, if_true]
  | cons b before ih =>
      rw [List.cons_append]
      unfold strrchr
      simp only [ih]

theorem fsCheckExtension_iff (path : CString) :
    fsCheckExtension path (some testExtension) = true ↔ testExtension.bytes <:+ path.bytes := by
  constructor
  · intro h
    cases hpoint : strrchr chPoint path.bytes with
    | none =>
        unfold fsCheckExtension at h
        rw [hpoint] at h
        cases h
    | some point =>
        unfold fsCheckExtension at h
        rw [hpoint] at h
        rw [beq_iff_eq.mp h]
        exact strrchr_suffix hpoint
  · rintro ⟨before, hbefore⟩
    have hpoint : strrchr chPoint path.bytes = some testExtension.bytes := by
      rw [← hbefore]
      exact strrchr_append before (by decide)
    unfold fsCheckExtension
    rw [hpoint]
    exact beq_self_eq_true _

/-- The extension of a path is that of its last name. -/
theorem fsCheckExtension_getEntryPath (path : CString) (name : FileName) :
    fsCheckExtension (getEntryPath path name) (some testExtension) =
      testExtension.bytes.isSuffixOf name.bytes := by
  rw [Bool.eq_iff_iff, fsCheckExtension_iff, List.isSuffixOf_iff_suffix]
  have hname : pathSeparator :: name.bytes <:+ (getEntryPath path name).bytes :=
    List.suffix_append _ _
  constructor
  · intro h
    rcases List.suffix_or_suffix_of_suffix h hname with h | h
    · rcases List.suffix_cons_iff.mp h with heq | h
      · exact absurd (List.cons.inj heq).1 (by decide)
      · exact h
    · have hseparator : pathSeparator ∈ testExtension.bytes := h.mem List.mem_cons_self
      exact absurd hseparator (by decide)
  · intro h
    exact (h.trans (List.suffix_cons _ _)).trans hname

end Extensions

section Discoveries

variable {fs} {start below file : Location} {args : List CString} {resolved path : CString}

theorem mem_testFiles (hdir : fsIsDir fs (pathOf start) = true) :
    below ∈ testFiles fs start ↔ TestFileUnder fs start (start ++ below) := by
  unfold testFiles
  rw [List.mem_flatMap]
  constructor
  · rintro ⟨dir, hmem, hfile⟩
    obtain ⟨entry, hlisted, htest, rfl⟩ := mem_listedIn.mp hfile
    exact ⟨start ++ dir, entry, (mem_directoriesBelow hdir).mp hmem, hlisted, htest,
      (List.append_assoc _ _ _).symm⟩
  · rintro ⟨location, entry, hunder, hlisted, htest, heq⟩
    obtain ⟨dir, -, rfl⟩ := directoryUnder_iff_reaches.mp hunder
    rw [List.append_assoc] at heq
    refine ⟨dir, (mem_directoriesBelow hdir).mpr hunder, ?_⟩
    rw [List.append_cancel_left heq]
    exact mem_listedIn.mpr ⟨entry, hlisted, htest, rfl⟩

theorem pathOf_locate_resolved (hresolved : fs.realpath path = some resolved) :
    pathOf (locate resolved) = resolved := by
  obtain ⟨location, rfl, -⟩ := fs.resolved path resolved hresolved
  rw [locate_pathOf]

theorem mem_discoveredAt (hresolved : pathOf (locate resolved) = resolved) :
    path ∈ discoveredAt fs resolvedName resolved ↔ FoundAt fs resolved path := by
  unfold discoveredAt FoundAt
  by_cases hdir : fsIsDir fs resolved = true
  · rw [if_pos hdir, if_pos hdir, List.mem_map]
    rw [← hresolved] at hdir
    constructor
    · rintro ⟨below, hbelow, rfl⟩
      exact ⟨_, (mem_testFiles hdir).mp hbelow, rfl⟩
    · rintro ⟨file, hfile, rfl⟩
      obtain ⟨location, entry, hunder, hlisted, htest, rfl⟩ := hfile
      obtain ⟨dir, -, rfl⟩ := directoryUnder_iff_reaches.mp hunder
      refine ⟨dir ++ [entry.name], (mem_testFiles hdir).mpr ?_, ?_⟩
      · exact ⟨_, entry, hunder, hlisted, htest, (List.append_assoc _ _ _).symm⟩
      · rw [resolvedName, List.append_assoc]
  · rw [if_neg hdir, if_neg hdir, List.mem_singleton]

theorem mem_offers : path ∈ offers fs resolvedName args ↔ Offered fs args path := by
  unfold offers Offered
  simp only [List.mem_flatMap, List.mem_filter, Option.mem_toList, Bool.not_eq_true']
  constructor
  · rintro ⟨arg, ⟨harg, hoption⟩, resolved, hresolved, hpath⟩
    have hlocate := pathOf_locate_resolved hresolved
    exact ⟨arg, harg, hoption, resolved, hresolved, (mem_discoveredAt hlocate).mp hpath⟩
  · rintro ⟨arg, harg, hoption, resolved, hresolved, hpath⟩
    have hlocate := pathOf_locate_resolved hresolved
    exact ⟨arg, ⟨harg, hoption⟩, resolved, hresolved, (mem_discoveredAt hlocate).mpr hpath⟩

theorem offers_eq_nil_iff : offers fs resolvedName args = [] ↔ ∀ path, ¬Offered fs args path := by
  rw [List.eq_nil_iff_forall_not_mem]
  exact forall_congr' fun path => not_congr mem_offers

theorem mem_defaultDirectory : defaultDirectory fs = some resolved ↔
    fs.realpath defaultTestsPath = some resolved ∧ fsIsDir fs resolved = true :=
  Option.filter_eq_some_iff

/-- The discoveries of a run are the sources of the run. -/
theorem mem_discoveries : path ∈ discoveries fs resolvedName args ↔ Wanted fs args path := by
  unfold discoveries Wanted
  by_cases hnone : offers fs resolvedName args = []
  · rw [if_pos hnone]
    have hoffered := offers_eq_nil_iff.mp hnone
    simp only [hoffered, false_or, not_false_eq_true, implies_true, true_and, List.mem_flatMap,
      Option.mem_toList, mem_defaultDirectory, and_assoc]
    constructor
    · rintro ⟨resolved, hresolved, hdir, hpath⟩
      have hlocate := pathOf_locate_resolved hresolved
      exact ⟨resolved, hresolved, hdir, (mem_discoveredAt hlocate).mp hpath⟩
    · rintro ⟨resolved, hresolved, hdir, hpath⟩
      have hlocate := pathOf_locate_resolved hresolved
      exact ⟨resolved, hresolved, hdir, (mem_discoveredAt hlocate).mpr hpath⟩
  · rw [if_neg hnone, mem_offers]
    constructor
    · exact Or.inl
    · rintro (hpath | ⟨hnot, -⟩)
      · exact hpath
      · exact absurd (offers_eq_nil_iff.mpr hnot) hnone

end Discoveries

section Fetching

variable {fs} {args : List CString} {resolved path : CString} {state : FetchState}

/-- What storing these paths leaves, unless the table is too small for it. -/
def stored (seen paths : List CString) : Except Halt FetchState :=
  if (paths.foldl insertNew seen).length ≤ sourcesCacheSize then
    .ok ⟨paths.foldl insertNew seen, paths.foldl insertNew seen⟩
  else .error .undefined

theorem foldlM_fetchOneSource {paths seen : List CString}
    (hexists : ∀ path ∈ paths, fsIsFileExists fs path = true)
    (hseen : seen.length ≤ sourcesCacheSize) :
    paths.foldlM (fetchOneSource fs) ⟨seen, seen⟩ = stored seen paths := by
  induction paths generalizing seen with
  | nil => exact (if_pos hseen).symm
  | cons path paths ih =>
      obtain ⟨hpath, hpaths⟩ := List.forall_mem_cons.mp hexists
      have hfetch : fetchOneSource fs ⟨seen, seen⟩ path =
          if path ∈ seen then .ok ⟨seen, seen⟩
          else if seen.length < sourcesCacheSize then .ok ⟨seen ++ [path], seen ++ [path]⟩
          else .error .undefined := by
        simp [fetchOneSource, hpath]
      rw [List.foldlM_cons, hfetch, stored, List.foldl_cons, insertNew]
      by_cases hmem : path ∈ seen
      · rw [if_pos hmem, if_pos hmem]
        exact ih hpaths hseen
      · rw [if_neg hmem, if_neg hmem]
        by_cases hroom : seen.length < sourcesCacheSize
        · rw [if_pos hroom]
          apply ih hpaths
          rw [List.length_append]
          exact hroom
        · have hfull : ¬(paths.foldl insertNew (seen ++ [path])).length ≤ sourcesCacheSize := by
            have hgrows := length_le_foldl_insertNew (seen ++ [path]) paths
            rw [List.length_append, List.length_singleton] at hgrows
            omega
          rw [if_neg hroom, if_neg hfull]
          rfl

/-- The walk hands the test files over, and no other file. -/
theorem fsReadDir_fetch (hdir : fsIsDir fs path = true) :
    fsReadDir fs path (fetchDirectorySources fs) state =
      ((walkFiles fs path).filter fun file => fsCheckExtension file (some testExtension)).foldlM
        (fetchOneSource fs) state := by
  have hfunc : ∀ file state, fetchDirectorySources fs file state =
      (if fsCheckExtension file (some testExtension) then fetchOneSource fs state file
        else pure state).map fun state => (true, state) := by
    intro file state
    unfold fetchDirectorySources
    cases fsCheckExtension file (some testExtension) with
    | false => rfl
    | true =>
        cases fetchOneSource fs state file <;> rfl
  rw [fsReadDir_eq hdir hfunc, List.foldlM_filter]

theorem walkFiles_filter (start : Location) : (walkFiles fs (pathOf start)).filter
    (fun file => fsCheckExtension file (some testExtension)) =
      (testFiles fs start).map (walkPath start) := by
  have hfiles : ∀ below, (regularFiles fs (walkPath start below)).filter
      (fun file => fsCheckExtension file (some testExtension)) =
        (testFilesIn fs start below).map (walkPath start) := by
    intro below
    rw [regularFiles, testFilesIn, opendir_getD, locate_walkPath, List.filter_map,
      List.filter_filter, List.map_map]
    have htest : ∀ entry ∈ fs.listing (start ++ below),
        (fsCheckExtension (getEntryPath (walkPath start below) entry.name) (some testExtension) &&
          entry.isRegular) = entry.isTestFile := by
      intro entry _
      rw [fsCheckExtension_getEntryPath, Bool.and_comm]
      rfl
    rw [← List.filter_congr htest]
    apply List.map_congr_left
    intro entry _
    exact (walkPath_concat start below entry.name).symm
  rw [walkFiles, directories_pathOf, testFiles, List.filter_flatMap, List.flatMap_map,
    List.map_flatMap]
  congr 1
  funext below
  exact hfiles below

theorem fetchAt_eq (hresolved : pathOf (locate resolved) = resolved) :
    (if fsIsDir fs resolved then fsReadDir fs resolved (fetchDirectorySources fs) state
      else fetchOneSource fs state resolved) =
      (discoveredAt fs walkPath resolved).foldlM (fetchOneSource fs) state := by
  unfold discoveredAt
  by_cases hdir : fsIsDir fs resolved = true
  · rw [if_pos hdir, if_pos hdir, fsReadDir_fetch hdir, ← walkFiles_filter, hresolved]
  · rw [if_neg hdir, if_neg hdir, List.foldlM_cons]
    cases fetchOneSource fs state resolved <;> rfl

theorem foldlM_fetchArgument
    (hargs : ∀ arg ∈ args, isOption arg = false → (fs.realpath arg).isSome) :
    args.foldlM (fetchArgument fs) state =
      (offers fs walkPath args).foldlM (fetchOneSource fs) state := by
  induction args generalizing state with
  | nil => rfl
  | cons arg args ih =>
      obtain ⟨harg, hargs⟩ := List.forall_mem_cons.mp hargs
      rw [List.foldlM_cons, fetchArgument, offers]
      by_cases hoption : isOption arg = true
      · have hskipped : ¬(!isOption arg) = true := by simp [hoption]
        rw [if_pos hoption, List.filter_cons_of_neg (p := fun arg => !isOption arg) hskipped]
        exact ih hargs
      · have htaken : (!isOption arg) = true := by simp [hoption]
        obtain ⟨resolved, hresolved⟩ := Option.isSome_iff_exists.mp
          (harg (Bool.eq_false_iff.mpr hoption))
        rw [if_neg hoption, List.filter_cons_of_pos (p := fun arg => !isOption arg) htaken,
          List.flatMap_cons, List.foldlM_append, hresolved, Option.toList_some,
          List.flatMap_singleton]
        dsimp only
        rw [fetchAt_eq (pathOf_locate_resolved hresolved)]
        congr 1
        funext state'
        exact ih hargs

theorem exists_discoveredAt {arg : CString} (hresolved : fs.realpath arg = some resolved) :
    ∀ path ∈ discoveredAt fs walkPath resolved, fsIsFileExists fs path = true := by
  intro path hpath
  unfold discoveredAt at hpath
  split at hpath
  · rw [← walkFiles_filter (locate resolved)] at hpath
    obtain ⟨dir, -, hfile⟩ := List.mem_flatMap.mp (List.mem_filter.mp hpath).1
    exact exists_regularFile hfile
  · obtain ⟨location, rfl, hnode⟩ := fs.resolved arg resolved hresolved
    rw [List.mem_singleton.mp hpath]
    unfold fsIsFileExists FileSystem.stat
    rwa [locate_pathOf]

theorem exists_discoveries : ∀ path ∈ discoveries fs walkPath args, fsIsFileExists fs path = true := by
  intro path hpath
  unfold discoveries at hpath
  split at hpath
  · obtain ⟨resolved, hresolved, hpath⟩ := List.mem_flatMap.mp hpath
    have hdefault := mem_defaultDirectory.mp (Option.mem_toList.mp hresolved)
    exact exists_discoveredAt hdefault.1 path hpath
  · obtain ⟨arg, -, hpath⟩ := List.mem_flatMap.mp hpath
    obtain ⟨resolved, hresolved, hpath⟩ := List.mem_flatMap.mp hpath
    exact exists_discoveredAt (Option.mem_toList.mp hresolved) path hpath

/-- How the files are called does not decide whether there are any. -/
theorem discoveredAt_eq_nil_iff (name : Naming) :
    discoveredAt fs name resolved = [] ↔ discoveredAt fs resolvedName resolved = [] := by
  unfold discoveredAt
  split
  · rw [List.map_eq_nil_iff, List.map_eq_nil_iff]
  · exact Iff.rfl

theorem offers_eq_nil_of_naming (name : Naming) :
    offers fs name args = [] ↔ offers fs resolvedName args = [] := by
  unfold offers
  simp only [List.flatMap_eq_nil_iff, discoveredAt_eq_nil_iff name]

theorem stored_map_sources (paths : List CString) : (stored [] paths).map FetchState.sources =
    if (firsts paths).length ≤ sourcesCacheSize then .ok (firsts paths) else .error .undefined := by
  unfold stored
  change (if (firsts paths).length ≤ sourcesCacheSize then _ else _ : Except Halt FetchState).map _ = _
  split <;> rfl

theorem fetchDefaultSources_none (hnone : defaultDirectory fs = none) :
    ∃ message, fetchDefaultSources fs state = .error (fatalError message) := by
  unfold fetchDefaultSources
  cases hresolved : fs.realpath defaultTestsPath with
  | none => exact ⟨_, rfl⟩
  | some resolved =>
      have hdir : fsIsDir fs resolved = false := by
        simpa [defaultDirectory, hresolved] using hnone
      simp only [hdir, Bool.not_false, if_true]
      exact ⟨_, rfl⟩

theorem fetchDefaultSources_some (hdefault : defaultDirectory fs = some resolved) :
    fetchDefaultSources fs state =
      (discoveredAt fs walkPath resolved).foldlM (fetchOneSource fs) state := by
  obtain ⟨hresolved, hdir⟩ := mem_defaultDirectory.mp hdefault
  rw [← fetchAt_eq (pathOf_locate_resolved hresolved), if_pos hdir, fetchDefaultSources, hresolved]
  simp only [hdir, Bool.not_true, Bool.false_eq_true, if_false]

/-- Without anything to do the run ends in a fatal error. -/
theorem fetchSources_nothing
    (hargs : ∀ arg ∈ args, isOption arg = false → (fs.realpath arg).isSome)
    (hnothing : NothingToDo fs args) :
    ∃ message, fetchSources fs args = .error (fatalError message) := by
  obtain ⟨hoffers, hdefault⟩ := hnothing
  have hfails : ∃ message, fetchDefaultSources fs ⟨[], []⟩ = .error (fatalError message) :=
    fetchDefaultSources_none hdefault
  obtain ⟨message, hmessage⟩ := hfails
  refine ⟨message, ?_⟩
  rw [fetchSources, foldlM_fetchArgument hargs, (offers_eq_nil_of_naming walkPath).mpr hoffers]
  change (fetchDefaultSources fs ⟨[], []⟩ >>= _) = _
  rw [hmessage]
  rfl

/-- Otherwise it collects the first occurrences among its discoveries, as its walks spell them. -/
theorem fetchSources_eq
    (hargs : ∀ arg ∈ args, isOption arg = false → (fs.realpath arg).isSome)
    (hnothing : ¬NothingToDo fs args) :
    fetchSources fs args = if (firsts (discoveries fs walkPath args)).length ≤ sourcesCacheSize
      then .ok (firsts (discoveries fs walkPath args)) else .error .undefined := by
  have hstored : (discoveries fs walkPath args).foldlM (fetchOneSource fs) ⟨[], []⟩ =
      stored [] (discoveries fs walkPath args) :=
    foldlM_fetchOneSource exists_discoveries (Nat.zero_le _)
  rw [← stored_map_sources, ← hstored]
  unfold fetchSources discoveries
  rw [foldlM_fetchArgument hargs]
  by_cases hoffers : offers fs walkPath args = []
  · rw [if_pos hoffers, hoffers]
    have hresolved := (offers_eq_nil_of_naming walkPath).mp hoffers
    cases hdefault : defaultDirectory fs with
    | none => exact absurd ⟨hresolved, hdefault⟩ hnothing
    | some resolved =>
        change (fetchDefaultSources fs ⟨[], []⟩ >>= _) = _
        rw [fetchDefaultSources_some hdefault, Option.toList_some, List.flatMap_singleton]
        cases (discoveredAt fs walkPath resolved).foldlM (fetchOneSource fs) ⟨[], []⟩ <;> rfl
  · have hpaths : discoveries fs walkPath args = offers fs walkPath args := if_neg hoffers
    rw [if_neg hoffers, ← hpaths, hstored, stored]
    split
    · have hsources : (discoveries fs walkPath args).foldl insertNew [] ≠ [] := by
        intro hnil
        have hlists := firsts_lists (discoveries fs walkPath args)
        rw [firsts, hnil, hpaths] at hlists
        apply hoffers
        apply List.eq_nil_iff_forall_not_mem.mpr
        intro path hpath
        cases (hlists.mem_iff path).mpr hpath
      simp only [bind, Except.bind, if_neg hsources]
      rfl
    · rfl

end Fetching

section Collected

variable {fs : FileSystem} {args : List CString} {sources : List CString}

/-- The table of the sources has not been overrun. -/
def FetchState.Fits (state : FetchState) : Prop :=
  state.sources = state.sourcesCache ∧ state.sourcesCache.length ≤ sourcesCacheSize

theorem FetchState.Fits.fetchOneSource {state state' : FetchState} {path : CString}
    (h : state.Fits) (hstep : fetchOneSource fs state path = .ok state') : state'.Fits := by
  unfold JCUnit.fetchOneSource at hstep
  split at hstep
  · cases hstep
  split at hstep
  · cases hstep
    exact h
  split at hstep
  next hroom =>
      cases hstep
      refine ⟨by rw [h.1], ?_⟩
      rw [List.length_append]
      exact hroom
  · cases hstep

theorem FetchState.Fits.fsReadDir {state state' : FetchState} {path : CString}
    (h : state.Fits) (hdir : fsIsDir fs path = true)
    (hstep : fsReadDir fs path (fetchDirectorySources fs) state = .ok state') : state'.Fits := by
  rw [fsReadDir_fetch hdir] at hstep
  exact foldlM_invariant (fun _ _ _ hstate hround => hstate.fetchOneSource hround) h hstep

theorem FetchState.Fits.fetchArgument {state state' : FetchState} {arg : CString}
    (h : state.Fits) (hstep : fetchArgument fs state arg = .ok state') : state'.Fits := by
  unfold JCUnit.fetchArgument at hstep
  split at hstep
  · cases hstep
    exact h
  split at hstep
  · cases hstep
  split at hstep
  next hdir => exact h.fsReadDir hdir hstep
  next => exact h.fetchOneSource hstep

theorem length_fetchSources (h : fetchSources fs args = .ok sources) :
    sources.length ≤ sourcesCacheSize := by
  obtain ⟨state, hargs, hrest⟩ := except_bind_eq_ok h
  have hstart : FetchState.Fits ⟨[], []⟩ := ⟨rfl, Nat.zero_le _⟩
  have hstate : state.Fits :=
    foldlM_invariant (fun _ _ _ hstate hround => hstate.fetchArgument hround) hstart hargs
  have hfits : ∀ state' : FetchState, state'.Fits → state'.sources.length ≤ sourcesCacheSize := by
    intro state' hstate'
    rw [hstate'.1]
    exact hstate'.2
  dsimp only at hrest
  split at hrest
  · obtain ⟨state', hdefault, hsources⟩ := except_bind_eq_ok hrest
    cases hsources
    apply hfits
    cases hdirectory : defaultDirectory fs with
    | none =>
        obtain ⟨message, hfatal⟩ :
            ∃ message, fetchDefaultSources fs state = .error (fatalError message) :=
          fetchDefaultSources_none hdirectory
        rw [hfatal] at hdefault
        cases hdefault
    | some resolved =>
        rw [fetchDefaultSources_some hdirectory] at hdefault
        exact foldlM_invariant (fun _ _ _ hstate hround => hstate.fetchOneSource hround) hstate
          hdefault
  · cases hrest
    exact hfits state hstate

end Collected

end JCUnit
