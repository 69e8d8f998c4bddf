import JCUnit.Application.History
import JCUnit.Foundation.KeyedEntries

/-!
# The cache after a run

A run that saves the cache writes down what it would write without one, whatever runs came before
it. From there on every source of the run is found in the cache until its file changes.
-/

namespace JCUnit

open StateError

/-- A round of the loop of `read_suites` that compiles the file. -/
def compileSource (files : Files) (state : CacheStore × List TestSuite) (path : CString) :
    Except Halt (CacheStore × List TestSuite) :=
  (compileTestSuite path (files.contents path)).map fun suite =>
    (cacheUpdate state.1 path (files.stat path) (files.contents path) suite, state.2 ++ [suite])

/-- A round that finds the suite in the cache. -/
def hitSource (files : Files) (state : CacheStore × List TestSuite) (path : CString) :
    Option (CacheStore × List TestSuite) :=
  match lookupSuite state.1 path (files.stat path) (files.contents path) with
  | .ok (some suite, store) => some (store, state.2 ++ [suite])
  | _ => none

section Rebuilding

variable {runs : List Run} {run : Run}

/-- From a sound store the loop builds the store and the suites that compiling every file gives. -/
theorem foldlM_rebuilds (hrun : run ∈ runs) (hcollisions : NoCollisions (SeenIn runs))
    (sources : List CString) (state : ReadState) (hstore : StoreSound (SeenIn runs) state.store) :
    (sources.foldlM (readSource run.files true) state).map
        (fun state => (state.saveStore, state.suites)) =
      sources.foldlM (compileSource run.files) (state.saveStore, state.suites) := by
  induction sources generalizing state with
  | nil => rfl
  | cons path sources ih =>
      obtain ⟨found, store', hlookup, hstore', hfound⟩ :=
        lookupSuite_sound hstore hrun hcollisions path
      have hresult : orCompile found path (run.files.contents path) =
          compileTestSuite path (run.files.contents path) := by
        cases found with
        | none => rfl
        | some suite => exact (hfound suite rfl).symm
      have hread : readSource run.files true state path =
          (compileTestSuite path (run.files.contents path)).map fun suite =>
            ⟨store', cacheUpdate state.saveStore path (run.files.stat path)
              (run.files.contents path) suite, state.suites ++ [suite]⟩ := by
        unfold readSource
        simp only [if_true, hlookup]
        change (orCompile found path (run.files.contents path) >>= _) = _
        rw [hresult]
        cases compileTestSuite path (run.files.contents path) <;> rfl
      rw [List.foldlM_cons, List.foldlM_cons, hread]
      unfold compileSource
      cases compileTestSuite path (run.files.contents path) with
      | error halt => rfl
      | ok suite => exact ih _ hstore'

theorem readSuites_rebuilds (hrun : run ∈ runs) (hcollisions : NoCollisions (SeenIn runs))
    {found : Option Bytes} (hfound : CacheFileSound (SeenIn runs) found) :
    readSuites run.files run.sources false found =
      (run.sources.foldlM (compileSource run.files) (.empty, [])).map fun read =>
        (read.2, some read.1) := by
  have hloop := foldlM_rebuilds hrun hcollisions run.sources ⟨cacheLoad found, .empty, []⟩
    (storeSound_cacheLoad hfound)
  dsimp only at hloop
  rw [← hloop]
  change (run.sources.foldlM (readSource run.files true) ⟨cacheLoad found, .empty, []⟩ >>= _) = _
  cases run.sources.foldlM (readSource run.files true) ⟨cacheLoad found, .empty, []⟩ <;> rfl

end Rebuilding

section Leaving

variable {machine : Machine} {context : ApplicationContext} {sources : List CString}
  {found cacheFile : Option Bytes} {contents : Bytes}

/-- The cache file when a plan has been carried out. -/
def Plan.leaves (machine : Machine) (p : Plan) : Option Bytes :=
  (endState (p.carryOut machine)).cacheFile

theorem leaves_eq_plan (invocation : Invocation) (cacheFile : Option Bytes) :
    invocation.leaves cacheFile =
      (plan invocation.machine invocation.args cacheFile).leaves invocation.machine := by
  unfold Invocation.leaves Invocation.result Plan.leaves
  rw [main_eq]

/-- A plan that leaves a file where there was none has a store to save. -/
theorem Plan.leaves_test_none {suites : List TestSuite} {store : Option CacheStore}
    (h : (Plan.test context suites store none).leaves machine = some contents) :
    ∃ saved, store = some saved ∧ contents = savedFile saved ∧
      ∀ found, (Plan.test context suites store found).leaves machine = some contents := by
  unfold Plan.leaves Plan.carryOut at h ⊢
  dsimp only at h ⊢
  cases hrun : mainRun (machine.surroundings context) suites context.runMode .start with
  | error halt s =>
      rw [hrun] at h
      cases h
  | ok code s =>
      rw [hrun] at h
      cases store with
      | none => cases h
      | some saved =>
          refine ⟨saved, rfl, ?_⟩
          unfold savedCacheFile at h ⊢
          dsimp only [endState] at h ⊢
          cases hopens : machine.opensCacheFile with
          | false =>
              rw [hopens] at h
              cases h
          | true =>
              rw [hopens] at h
              cases h
              exact ⟨rfl, fun found => rfl⟩

theorem planSources_leaves
    (hread : context.has .noCache = false →
      readSuites machine.files sources false found = readSuites machine.files sources false none)
    (h : (planSources machine context sources none).leaves machine = some contents) :
    (planSources machine context sources found).leaves machine = some contents ∧
      ∃ suites store, readSuites machine.files sources false none = .ok (suites, some store) ∧
        contents = savedFile store := by
  unfold planSources at h ⊢
  by_cases hnone : sources = []
  · rw [if_pos hnone] at h
    cases h
  rw [if_neg hnone] at h ⊢
  cases hcached : context.has .noCache with
  | true =>
      rw [hcached] at h
      cases hsuites : readSuites machine.files sources true none with
      | error halt =>
          rw [hsuites] at h
          cases h
      | ok read =>
          obtain ⟨suites, store⟩ := read
          rw [hsuites] at h
          obtain ⟨saved, rfl, -⟩ := Plan.leaves_test_none h
          cases readSuites_some hsuites
  | false =>
      rw [hcached] at h
      rw [hread hcached]
      cases hsuites : readSuites machine.files sources false none with
      | error halt =>
          rw [hsuites] at h
          cases h
      | ok read =>
          obtain ⟨suites, store⟩ := read
          rw [hsuites] at h
          obtain ⟨saved, rfl, hsaved, hall⟩ := Plan.leaves_test_none h
          exact ⟨hall found, suites, saved, rfl, hsaved⟩

variable {invocation : Invocation} {invocations : List Invocation}

/-- From a sound cache file an invocation leaves what it leaves from none. -/
theorem leaves_rebuilds (hmem : invocation ∈ invocations) (h : CacheAssumptions invocations)
    (hfile : CacheFileSound (SeenIn (invocations.map Invocation.reading)) cacheFile)
    (hleaves : invocation.leaves none = some contents) :
    invocation.leaves cacheFile = some contents ∧
      ∃ suites store, fetchSources invocation.machine.fs invocation.args =
          .ok invocation.reading.sources ∧
        readSuites invocation.machine.files invocation.reading.sources false none =
          .ok (suites, some store) ∧ contents = savedFile store := by
  have hrun := List.mem_map_of_mem (f := Invocation.reading) hmem
  have hread : ∀ found, CacheFileSound (SeenIn (invocations.map Invocation.reading)) found →
      readSuites invocation.machine.files invocation.reading.sources false found =
        readSuites invocation.machine.files invocation.reading.sources false none := by
    intro found hfound
    have hrebuilt := readSuites_rebuilds hrun h.noCollisions hfound
    rw [← readSuites_rebuilds hrun h.noCollisions cacheFileSound_none] at hrebuilt
    exact hrebuilt
  rw [leaves_eq_plan] at hleaves ⊢
  unfold plan at hleaves ⊢
  cases hparse : parseOptions invocation.machine.envNoCache invocation.args with
  | error halt =>
      rw [hparse] at hleaves
      cases hleaves
  | ok context =>
      rw [hparse] at hleaves
      dsimp only at hleaves ⊢
      unfold planOptions at hleaves ⊢
      by_cases hhelp : context.has .showHelp = true
      · rw [if_pos hhelp] at hleaves
        cases hleaves
      rw [if_neg hhelp] at hleaves ⊢
      by_cases hversion : context.has .showVersion = true
      · rw [if_pos hversion] at hleaves
        cases hleaves
      rw [if_neg hversion] at hleaves ⊢
      dsimp only at hleaves ⊢
      rw [ite_self] at hleaves
      generalize hfound : (if context.has .clearCache then none else cacheFile) = found
      have hsound : CacheFileSound (SeenIn (invocations.map Invocation.reading)) found := by
        rw [← hfound]
        split
        · exact cacheFileSound_none
        · exact hfile
      cases hatexit : invocation.machine.atexitRegisters with
      | false =>
          rw [hatexit] at hleaves
          cases hleaves
      | true =>
          rw [hatexit] at hleaves
          simp only [Bool.not_true, Bool.false_eq_true, if_false] at hleaves ⊢
          cases hsources : fetchSources invocation.machine.fs invocation.args with
          | error halt =>
              rw [hsources] at hleaves
              cases hleaves
          | ok sources =>
              have heq : invocation.reading.sources = sources := by
                unfold Invocation.reading
                rw [hsources]
                rfl
              rw [hsources] at hleaves
              rw [heq] at hread ⊢
              obtain ⟨hsame, suites, store, hsuites, hcontents⟩ :=
                planSources_leaves (fun _ => hread found hsound) hleaves
              exact ⟨hsame, suites, store, rfl, hsuites, hcontents⟩

end Leaving

section Entries

variable {store : CacheStore} {path other : CString} {entry : CacheEntry}

theorem find_overwrite_self (hpath : entry.path = path) (hfound : (store.find path).isSome) :
    (store.overwrite path entry).find path = some entry :=
  KeyedEntries.find_overwrite_self hpath hfound

theorem find_overwrite_of_ne (hpath : entry.path = path) (hother : other ≠ path) :
    (store.overwrite path entry).find other = store.find other :=
  KeyedEntries.find_overwrite_of_ne hpath hother

/-- An update with room for its entry is found, and the rest of the store as before. -/
theorem find_cacheUpdate (hroom : store.entries.length < cacheMaxEntries) (path : CString)
    (st : Stat) (contents : Option Bytes) (suite : TestSuite) :
    (cacheUpdate store path (some st) contents suite).find path =
        some ⟨path, st.mtime, st.size, hashFileContent contents, some suite, none⟩ ∧
      ∀ other, other ≠ path →
        (cacheUpdate store path (some st) contents suite).find other = store.find other := by
  unfold cacheUpdate
  dsimp only
  split
  next hfound =>
      exact ⟨find_overwrite_self rfl hfound, fun _ hother => find_overwrite_of_ne rfl hother⟩
  next hnone =>
      have hnone : store.find path = none := Option.not_isSome_iff_eq_none.mp hnone
      exact ⟨KeyedEntries.find_append_self rfl hnone,
        fun _ hother => KeyedEntries.find_append_of_ne rfl hother⟩

theorem length_cacheUpdate_le (store : CacheStore) (path : CString) (st : Stat)
    (contents : Option Bytes) (suite : TestSuite) :
    (cacheUpdate store path (some st) contents suite).entries.length ≤ store.entries.length + 1 := by
  unfold cacheUpdate CacheStore.overwrite
  dsimp only
  split
  · rw [List.length_set]
    exact Nat.le_succ _
  · split
    · rw [List.length_append]
      rfl
    · exact Nat.le_succ _

end Entries

section Recording

variable {files : Files} {store : CacheStore} {path : CString} {sources : List CString}

/-- The store has what the file compiles to, under the file's fingerprint. -/
def InStore (files : Files) (store : CacheStore) (path : CString) : Prop :=
  ∃ v suite, files.version path = some v ∧ compileTestSuite path (some v.contents) = .ok suite ∧
    store.find path =
      some ⟨path, v.stat.mtime, v.stat.size, hashContents v.contents, some suite, none⟩

theorem InStore.update {v : FileVersion} {suite : TestSuite}
    (hroom : store.entries.length < cacheMaxEntries) (hv : files.version path = some v)
    (hcompile : compileTestSuite path (some v.contents) = .ok suite) {other : CString}
    (h : other = path ∨ InStore files store other) :
    InStore files (cacheUpdate store path (some v.stat) (some v.contents) suite) other := by
  obtain ⟨hself, hrest⟩ := find_cacheUpdate hroom path v.stat (some v.contents) suite
  by_cases hother : other = path
  · subst hother
    exact ⟨v, suite, hv, hcompile, hself⟩
  · obtain ⟨w, suite', hw, hcompile', hfind⟩ := h.resolve_left hother
    exact ⟨w, suite', hw, hcompile', (hrest other hother).trans hfind⟩

/-- As long as there is room, each source is recorded. -/
def RecordsAll (files : Files) (done : List CString) (read : CacheStore × List TestSuite) : Prop :=
  done.length ≤ cacheMaxEntries →
    (∀ path ∈ done, InStore files read.1 path) ∧ read.1.entries.length ≤ done.length

theorem compileSource_records {done : List CString} {read read' : CacheStore × List TestSuite}
    (hdone : RecordsAll files done read) (hstep : compileSource files read path = .ok read') :
    RecordsAll files (done ++ [path]) read' := by
  intro hlength
  rw [List.length_append, List.length_singleton] at hlength ⊢
  obtain ⟨hrecorded, hentries⟩ := hdone (by omega)
  unfold compileSource Files.contents Files.stat at hstep
  cases hv : files.version path with
  | none =>
      rw [hv] at hstep
      cases hstep
  | some v =>
      rw [hv] at hstep
      dsimp only [Option.map_some] at hstep
      cases hcompile : compileTestSuite path (some v.contents) with
      | error halt =>
          rw [hcompile] at hstep
          cases hstep
      | ok suite =>
          rw [hcompile] at hstep
          cases hstep
          constructor
          · intro other hother
            apply InStore.update (by omega) hv hcompile
            rcases List.mem_append.mp hother with hold | hnew
            · exact Or.inr (hrecorded other hold)
            · exact Or.inl (List.mem_singleton.mp hnew)
          · have hgrows := length_cacheUpdate_le read.1 path v.stat (some v.contents) suite
            dsimp only
            omega

theorem foldlM_records {suites : List TestSuite} (hbound : sources.length ≤ cacheMaxEntries)
    (h : sources.foldlM (compileSource files) (.empty, []) = .ok (store, suites)) :
    ∀ path ∈ sources, InStore files store path := by
  have hstart : RecordsAll files [] (.empty, []) := fun _ => ⟨nofun, Nat.le_refl 0⟩
  have hloop := foldlM_prefix (P := RecordsAll files)
    (fun _ _ _ _ => compileSource_records) hstart h
  exact (hloop hbound).1

end Recording

section Warmth

variable {files : Files} {store : CacheStore} {path : CString} {sources : List CString}

/-- An entry with the fingerprint of the file stands for what the file compiles to. -/
def Warm (files : Files) (store : CacheStore) (path : CString) : Prop :=
  ∃ v suite entry, files.version path = some v ∧
    compileTestSuite path (some v.contents) = .ok suite ∧ store.find path = some entry ∧
    entry.Matches v.stat (hashContents v.contents) ∧
    (entry.suite = some suite ∨
      entry.suite = none ∧ ∃ data, entry.data = some data ∧ deserializeTestSuite data = .ok suite)

/-- A lookup gives the suite and leaves the rest of the store warm. -/
theorem Warm.lookup (h : Warm files store path) :
    ∃ suite store', compileTestSuite path (files.contents path) = .ok suite ∧
      lookupSuite store path (files.stat path) (files.contents path) = .ok (some suite, store') ∧
      ∀ other, Warm files store other → Warm files store' other := by
  obtain ⟨v, suite, entry, hv, hcompile, hfind, hmatch, hsuite⟩ := h
  have hlookup : cacheLookup store path (files.stat path) (files.contents path) =
      entrySuite store entry := by
    unfold cacheLookup Files.stat Files.contents
    rw [hv, hfind]
    exact if_pos hmatch
  have hcompile' : compileTestSuite path (files.contents path) = .ok suite := by
    unfold Files.contents
    rw [hv]
    exact hcompile
  unfold lookupSuite
  rw [hlookup]
  rcases hsuite with hlive | ⟨hnone, data, hdata, hdecode⟩
  · refine ⟨suite, store, hcompile', ?_, fun _ hother => hother⟩
    unfold entrySuite
    rw [hlive]
  · refine ⟨suite, store.overwrite entry.path { entry with suite := some suite }, hcompile', ?_, ?_⟩
    · unfold entrySuite
      rw [hnone, hdata]
      simp only [hdecode]
    · obtain rfl : entry.path = path := (CacheStore.find_mem hfind).2
      let decoded : CacheEntry := { entry with suite := some suite }
      intro other hother
      by_cases heq : other = entry.path
      · subst heq
        refine ⟨v, suite, decoded, hv, hcompile, ?_, hmatch, Or.inl rfl⟩
        exact find_overwrite_self rfl (by rw [hfind]; rfl)
      · obtain ⟨w, suite', entry', hw, hcompile'', hfind', hrest⟩ := hother
        refine ⟨w, suite', entry', hw, hcompile'', ?_, hrest⟩
        have hsame : (store.overwrite entry.path decoded).find other = store.find other :=
          find_overwrite_of_ne rfl heq
        exact hsame.trans hfind'

/-- From a warm store the loop hits every time. -/
theorem foldlM_hits (hwarm : ∀ path ∈ sources, Warm files store path) (suites : List TestSuite) :
    ∃ store' found, sources.foldlM (hitSource files) (store, suites) = some (store', suites ++ found) ∧
      sources.mapM (fun path => compileTestSuite path (files.contents path)) = .ok found := by
  induction sources generalizing store suites with
  | nil => exact ⟨store, [], by rw [List.append_nil]; rfl, rfl⟩
  | cons path sources ih =>
      obtain ⟨hpath, hsources⟩ := List.forall_mem_cons.mp hwarm
      obtain ⟨suite, store', hcompile, hlookup, hkept⟩ := hpath.lookup
      obtain ⟨store'', found, hloop, hrest⟩ :=
        ih (fun other hother => hkept other (hsources other hother)) (suites ++ [suite])
      refine ⟨store'', suite :: found, ?_, ?_⟩
      · have hhit : hitSource files (store, suites) path = some (store', suites ++ [suite]) := by
          unfold hitSource
          rw [hlookup]
        rw [List.foldlM_cons, hhit]
        change sources.foldlM (hitSource files) (store', suites ++ [suite]) = _
        rw [hloop, List.append_assoc]
        rfl
      · rw [List.mapM_cons, hcompile, hrest]
        rfl

variable {seen : CString → FileVersion → Prop}

/-- What has been recorded is found when the store has been saved and loaded. -/
theorem InStore.warm (h : InStore files store path) (hstore : StoreSound seen store) :
    Warm files (cacheLoad (some (savedFile store))) path := by
  obtain ⟨v, suite, hv, hcompile, hfind⟩ := h
  have hfits : ∀ entry ∈ store.entries, EntryFits entry := fun entry hentry =>
    (hstore entry hentry).fits
  have hloaded : (cacheLoad (some (savedFile store))).find path =
      (store.find path).map CacheEntry.loaded := by
    have hmap : KeyedEntries.find CacheEntry.path (store.entries.map CacheEntry.loaded) path =
        (KeyedEntries.find CacheEntry.path store.entries path).map CacheEntry.loaded :=
      KeyedEntries.find_map fun _ => rfl
    rw [← cacheLoad_savedFile hfits] at hmap
    exact hmap
  rw [hfind] at hloaded
  obtain ⟨suite', hcompiled, hlive⟩ := hstore _ (CacheStore.find_mem hfind).1
  obtain rfl : suite' = suite := by
    rcases hlive with hlive | ⟨hnone, -⟩
    · exact (Option.some.inj hlive).symm
    · cases hnone
  refine ⟨v, suite', _, hv, hcompile, hloaded, ⟨rfl, rfl, rfl⟩, Or.inr ⟨rfl, _, rfl, ?_⟩⟩
  have hdecodes := hcompiled.decodes
  rw [serialized_eq] at hdecodes
  exact hdecodes

end Warmth

section Stores

variable {runs : List Run} {run : Run} {suites : List TestSuite} {store : CacheStore}

/-- The store that a run without a cache file saves is sound. -/
theorem storeSound_readSuites (hrun : run ∈ runs) (hcollisions : NoCollisions (SeenIn runs))
    (hblocks : FitsBlocks runs)
    (hread : readSuites run.files run.sources false none = .ok (suites, some store)) :
    StoreSound (SeenIn runs) store := by
  obtain ⟨state, hloop, hsaved⟩ := except_bind_eq_ok hread
  cases hsaved
  simp only [Bool.not_false, if_true] at hloop
  have hagree := readSuites_agree hrun hcollisions hblocks cacheFileSound_none
  rw [hloop] at hagree
  generalize run.sources.foldlM (readSource run.files false) _ = uncached at hagree
  cases hagree with
  | reading _ _ hsave => exact hsave

theorem recorded_readSuites (hrun : run ∈ runs) (hcollisions : NoCollisions (SeenIn runs))
    (hbound : run.sources.length ≤ cacheMaxEntries)
    (hread : readSuites run.files run.sources false none = .ok (suites, some store)) :
    ∀ path ∈ run.sources, InStore run.files store path := by
  rw [readSuites_rebuilds hrun hcollisions cacheFileSound_none] at hread
  cases hloop : run.sources.foldlM (compileSource run.files) (.empty, []) with
  | error halt =>
      rw [hloop] at hread
      cases hread
  | ok read =>
      rw [hloop] at hread
      cases hread
      exact foldlM_records hbound hloop

end Stores

section SingleInvocation

def singleName : FileName := ⟨ascii "single.test", by decide, by decide, by decide⟩

def singleVersion : FileVersion := ⟨1, ascii "@test(\"t\")\n@whenRun(\"x\")\n@endtest\n"⟩

/-- The one test file is named, and has one test. -/
def singleInvocation : Invocation where
  machine :=
    { fs := singleFile singleName
      files := Files.empty.replace (pathOf [singleName]) singleVersion (by decide)
      envNoCache := none
      atexitRegisters := true
      opensCacheFile := true
      host := fun _ _ _ => ⟨true, true, .error [], none, none, none, none, none, .finished,
        ⟨false, some 0, fun _ => []⟩⟩
      buffering := .unbuffered
      elapsedMs := 0 }
  args := [pathOf [singleName]]

theorem singleInvocation_twice : CacheAssumptions ([singleInvocation] ++ [singleInvocation]) := by
  have hcompile : compileTestSuite (pathOf [singleName]) (some singleVersion.contents) =
      .ok ⟨⟨ascii "single.test", by decide⟩, [{ makeProgramRunnerTest with
        name := some (ascii "t")
        flags := testFlagHasWhen ||| testFlagIncomplete
        programPath := some (ascii "x") }]⟩ := by
    decide +kernel
  have hversion : ∀ other ∈ [singleInvocation] ++ [singleInvocation], ∀ path w,
      other.machine.files.version path = some w → path = pathOf [singleName] ∧ w = singleVersion := by
    intro other hother path w hw
    obtain rfl : other = singleInvocation := by simpa using hother
    rcases Files.replace_version (by decide) hw with hnew | hold
    · exact hnew
    · cases hold.2
  exact assumptions_singleFile hversion hcompile (by decide +kernel)

theorem singleInvocation_leaves : (singleInvocation.leaves none).isSome = true := by
  decide +kernel

end SingleInvocation

/-- An invocation that leaves a cache file in a directory without one leaves the same file after
any history. -/
theorem cache_file_converges (history : List Invocation) (invocation : Invocation)
    (h : CacheAssumptions (history ++ [invocation])) (hleaves : (invocation.leaves none).isSome) :
    invocation.leaves (cacheFileBehind history) = invocation.leaves none := by
  have hmem : invocation ∈ history ++ [invocation] := List.mem_append_right _ List.mem_cons_self
  have hfile := cacheFileBehind_sound h fun _ hold => List.mem_append_left _ hold
  obtain ⟨contents, hcontents⟩ := Option.isSome_iff_exists.mp hleaves
  rw [hcontents]
  exact (leaves_rebuilds hmem h hfile hcontents).1

theorem cache_file_converges_second :
    singleInvocation.leaves (cacheFileBehind [singleInvocation]) = singleInvocation.leaves none :=
  cache_file_converges [singleInvocation] singleInvocation singleInvocation_twice
    singleInvocation_leaves

/-- Behind such an invocation, whatever came before it, every source is found in the cache as long
as the files stay as they are. -/
theorem warm_cache (history : List Invocation) (invocation : Invocation)
    (h : CacheAssumptions (history ++ [invocation])) (hleaves : (invocation.leaves none).isSome)
    {sources : List CString} (hsources : ∀ path ∈ sources, path ∈ invocation.reading.sources) :
    ∃ store suites,
      sources.foldlM (hitSource invocation.machine.files)
        (cacheLoad (cacheFileBehind (history ++ [invocation])), []) = some (store, suites) ∧
      sources.mapM (fun path => compileTestSuite path (invocation.machine.files.contents path)) =
        .ok suites := by
  have hmem : invocation ∈ history ++ [invocation] := List.mem_append_right _ List.mem_cons_self
  have hfile := cacheFileBehind_sound h fun _ hold => List.mem_append_left _ hold
  obtain ⟨contents, hcontents⟩ := Option.isSome_iff_exists.mp hleaves
  obtain ⟨hleft, suites, store, hfetched, hread, rfl⟩ := leaves_rebuilds hmem h hfile hcontents
  have hbehind : cacheFileBehind (history ++ [invocation]) = some (savedFile store) := by
    unfold cacheFileBehind at hleft ⊢
    rw [List.foldl_append]
    exact hleft
  have hrun := List.mem_map_of_mem (f := Invocation.reading) hmem
  have hsound := storeSound_readSuites hrun h.noCollisions h.fitsBlocks hread
  have hbound : invocation.reading.sources.length ≤ cacheMaxEntries := length_fetchSources hfetched
  have hrecorded := recorded_readSuites hrun h.noCollisions hbound hread
  rw [hbehind]
  obtain ⟨store', found, hloop, hcompiled⟩ :=
    foldlM_hits (fun path hpath => (hrecorded path (hsources path hpath)).warm hsound) []
  exact ⟨store', found, hloop, hcompiled⟩

/-- The third of three invocations compiles nothing. -/
theorem warm_cache_third :
    ∃ store suites,
      [pathOf [singleName]].foldlM (hitSource singleInvocation.machine.files)
        (cacheLoad (cacheFileBehind [singleInvocation, singleInvocation]), []) =
          some (store, suites) ∧
      [pathOf [singleName]].mapM (fun path =>
        compileTestSuite path (singleInvocation.machine.files.contents path)) = .ok suites := by
  have hsources : ∀ path ∈ [pathOf [singleName]], path ∈ singleInvocation.reading.sources := by
    decide +kernel
  exact warm_cache [singleInvocation] singleInvocation singleInvocation_twice
    singleInvocation_leaves hsources

end JCUnit
