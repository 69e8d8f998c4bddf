import JCUnit.Application.ReadSuites
import JCUnit.Cache.SoundStore

/-!
# The cached path refines the uncached path

The loop of `read_suites` keeps both of its stores sound, and saving and loading
carry that from one run to the next. From a sound store the loop reads the suites
the compiler gives.
-/

namespace JCUnit

open StateError

/-- The versions of a file that some run sees. -/
def SeenIn (runs : List Run) (path : CString) (v : FileVersion) : Prop :=
  ∃ run ∈ runs, run.files.version path = some v

/-- Every suite the runs compile fits a block of the cache's memory pool. -/
def FitsBlocks (runs : List Run) : Prop :=
  ∀ run ∈ runs, ∀ path ∈ run.sources, ∀ v suite, run.files.version path = some v →
    compileTestSuite path (some v.contents) = .ok suite →
    (serialized suite).length ≤ defaultMemoryBlobSize

variable {runs : List Run} {run : Run} {cached uncached : ReadState} {path : CString}
  {suite : TestSuite} {v : FileVersion}

theorem compiled_of_version (hrun : run ∈ runs) (hblocks : FitsBlocks runs)
    (hpath : path ∈ run.sources) (hv : run.files.version path = some v)
    (hcompile : compileTestSuite path (some v.contents) = .ok suite) :
    Compiled (SeenIn runs) path v.stat (hashContents v.contents) suite where
  short := by
    have hshort := run.files.short path (by rw [hv]; rfl)
    exact Nat.lt_trans hshort (by decide)
  fits := Nat.lt_of_le_of_lt (hblocks run hrun path hpath v suite hv hcompile) (by decide)
  version := ⟨v, ⟨run, hrun, hv⟩, rfl, rfl, hcompile⟩

/-- A lookup finds nothing or the suite that compiling the file gives. -/
theorem lookupSuite_sound {store : CacheStore} (h : StoreSound (SeenIn runs) store)
    (hrun : run ∈ runs) (hcollisions : NoCollisions (SeenIn runs)) (path : CString) :
    ∃ found store', lookupSuite store path (run.files.stat path) (run.files.contents path) =
        .ok (found, store') ∧ StoreSound (SeenIn runs) store' ∧
      ∀ suite ∈ found, compileTestSuite path (run.files.contents path) = .ok suite := by
  obtain ⟨found, store', hlookup, hstore', hfound⟩ :=
    cacheLookup_sound h path (run.files.stat path) (run.files.contents path)
  refine ⟨found, store', ?_, hstore', ?_⟩
  · unfold lookupSuite
    rw [hlookup]
  · intro suite hsuite
    obtain ⟨st, hst, hcompiled⟩ := hfound suite hsuite
    unfold Files.stat Files.contents at *
    cases hv : run.files.version path with
    | none =>
        rw [hv] at hst
        cases hst
    | some v =>
        rw [hv] at hst hcompiled
        cases hst
        exact hcompiled.compile_eq hcollisions ⟨run, hrun, hv⟩

/-- The cached and the uncached loop stop in the same error or have read the same suites. -/
inductive Agree (runs : List Run) : Except Halt ReadState → Except Halt ReadState → Prop
  | stopped (halt : Halt) : Agree runs (.error halt) (.error halt)
  | reading {cached uncached : ReadState} (hsuites : cached.suites = uncached.suites)
      (hstore : StoreSound (SeenIn runs) cached.store)
      (hsave : StoreSound (SeenIn runs) cached.saveStore) :
      Agree runs (.ok cached) (.ok uncached)

theorem readSource_agree (hrun : run ∈ runs) (hcollisions : NoCollisions (SeenIn runs))
    (hblocks : FitsBlocks runs) (hpath : path ∈ run.sources)
    (hsuites : cached.suites = uncached.suites) (hstore : StoreSound (SeenIn runs) cached.store)
    (hsave : StoreSound (SeenIn runs) cached.saveStore) :
    Agree runs (readSource run.files true cached path) (readSource run.files false uncached path) := by
  obtain ⟨found, store', hlookup, hstore', hfound⟩ :=
    lookupSuite_sound hstore hrun hcollisions path
  have hresult : orCompile found path (run.files.contents path) =
      compileTestSuite path (run.files.contents path) := by
    cases found with
    | none => rfl
    | some suite => exact (hfound suite rfl).symm
  unfold readSource
  simp only [if_true, hlookup, Bool.false_eq_true, if_false]
  change Agree runs (orCompile found path (run.files.contents path) >>= _)
    (compileTestSuite path (run.files.contents path) >>= _)
  rw [hresult]
  cases hcompile : compileTestSuite path (run.files.contents path) with
  | error halt => exact .stopped halt
  | ok suite =>
      refine .reading (congrArg (· ++ [suite]) hsuites) hstore' ?_
      cases hv : run.files.version path with
      | none =>
          unfold Files.contents at hcompile
          rw [hv] at hcompile
          cases hcompile
      | some v =>
          unfold Files.contents Files.stat at *
          rw [hv] at hcompile ⊢
          exact cacheUpdate_sound hsave (compiled_of_version hrun hblocks hpath hv hcompile)

theorem foldlM_agree (hrun : run ∈ runs) (hcollisions : NoCollisions (SeenIn runs))
    (hblocks : FitsBlocks runs) {sources : List CString}
    (hsources : ∀ path ∈ sources, path ∈ run.sources)
    (hsuites : cached.suites = uncached.suites) (hstore : StoreSound (SeenIn runs) cached.store)
    (hsave : StoreSound (SeenIn runs) cached.saveStore) :
    Agree runs (sources.foldlM (readSource run.files true) cached)
      (sources.foldlM (readSource run.files false) uncached) := by
  induction sources generalizing cached uncached with
  | nil => exact .reading hsuites hstore hsave
  | cons path sources ih =>
      obtain ⟨hpath, hsources⟩ := List.forall_mem_cons.mp hsources
      have hhead := readSource_agree hrun hcollisions hblocks hpath hsuites hstore hsave
      rw [List.foldlM_cons, List.foldlM_cons]
      generalize readSource run.files true cached path = first at hhead ⊢
      generalize readSource run.files false uncached path = second at hhead ⊢
      cases hhead with
      | stopped halt => exact .stopped halt
      | reading hsuites hstore hsave => exact ih hsources hsuites hstore hsave

/-- The whole loop, from the store that is loaded. -/
theorem readSuites_agree (hrun : run ∈ runs) (hcollisions : NoCollisions (SeenIn runs))
    (hblocks : FitsBlocks runs) {cacheFile : Option Bytes}
    (hfile : CacheFileSound (SeenIn runs) cacheFile) :
    Agree runs (run.sources.foldlM (readSource run.files true) ⟨cacheLoad cacheFile, .empty, []⟩)
      (run.sources.foldlM (readSource run.files false) ⟨.empty, .empty, []⟩) :=
  foldlM_agree hrun hcollisions hblocks (fun _ hpath => hpath) rfl
    (storeSound_cacheLoad hfile) storeSound_empty

theorem found_sound {cacheFile : Option Bytes} (hfile : CacheFileSound (SeenIn runs) cacheFile)
    (run : Run) :
    CacheFileSound (SeenIn runs) (run.found cacheFile) := by
  unfold Run.found
  split
  · exact cacheFileSound_none
  · exact hfile

/-- A run leaves a sound cache file behind. -/
theorem leaves_sound (hrun : run ∈ runs) (hcollisions : NoCollisions (SeenIn runs))
    (hblocks : FitsBlocks runs) {cacheFile : Option Bytes}
    (hfile : CacheFileSound (SeenIn runs) cacheFile) :
    CacheFileSound (SeenIn runs) (run.leaves cacheFile) := by
  have hfound := found_sound hfile run
  have hagree := readSuites_agree hrun hcollisions hblocks hfound
  unfold Run.leaves Run.suites readSuites
  cases hno : run.noCache with
  | true =>
      simp only [Bool.not_true, Bool.false_eq_true, if_false]
      cases run.sources.foldlM (readSource run.files false) ⟨.empty, .empty, []⟩ with
      | error _ => exact hfound
      | ok _ => exact hfound
  | false =>
      simp only [Bool.not_false, if_true]
      cases hcached : run.sources.foldlM (readSource run.files true)
          ⟨cacheLoad (run.found cacheFile), .empty, []⟩ with
      | error _ => exact hfound
      | ok state =>
          rw [hcached] at hagree
          generalize run.sources.foldlM (readSource run.files false) _ = other at hagree
          cases hagree with
          | reading _ _ hsave =>
              change CacheFileSound (SeenIn runs)
                (if run.saves then some (savedFile state.saveStore) else _)
              split
              · intro contents hcontents
                cases hcontents
                exact ⟨state.saveStore, rfl, hsave⟩
              · exact hfound

/-- Every history of runs leaves a sound cache file. -/
theorem cacheFileAfter_sound (hcollisions : NoCollisions (SeenIn runs)) (hblocks : FitsBlocks runs)
    {history : List Run} (hhistory : ∀ run ∈ history, run ∈ runs) {cacheFile : Option Bytes}
    (hfile : CacheFileSound (SeenIn runs) cacheFile) :
    CacheFileSound (SeenIn runs) (history.foldl (fun cacheFile run => run.leaves cacheFile) cacheFile) := by
  induction history generalizing cacheFile with
  | nil => exact hfile
  | cons run history ih =>
      obtain ⟨hrun, hhistory⟩ := List.forall_mem_cons.mp hhistory
      exact ih hhistory (leaves_sound hrun hcollisions hblocks hfile)

section Uncached

variable {files : Files}

theorem readSource_uncached (state : ReadState) (path : CString) :
    readSource files false state path = (compileTestSuite path (files.contents path)).map
      fun suite => ⟨state.store, state.saveStore, state.suites ++ [suite]⟩ := by
  unfold readSource
  simp only [Bool.false_eq_true, if_false]
  change (compileTestSuite path (files.contents path) >>= _) = _
  cases compileTestSuite path (files.contents path) <;> rfl

/-- Without the cache the loop compiles one source after the other. -/
theorem foldlM_uncached (sources : List CString) (state : ReadState) :
    (sources.foldlM (readSource files false) state).map ReadState.suites =
      (sources.mapM fun path => compileTestSuite path (files.contents path)).map
        (state.suites ++ ·) := by
  induction sources generalizing state with
  | nil => exact congrArg Except.ok (List.append_nil _).symm
  | cons path sources ih =>
      rw [List.foldlM_cons, List.mapM_cons, readSource_uncached]
      cases compileTestSuite path (files.contents path) with
      | error halt => rfl
      | ok suite =>
          change (sources.foldlM (readSource files false) _).map ReadState.suites =
            Except.map _ (sources.mapM _ >>= fun suites => pure (suite :: suites))
          rw [ih]
          cases sources.mapM fun path => compileTestSuite path (files.contents path) with
          | error halt => rfl
          | ok suites => exact congrArg Except.ok (List.append_cons _ _ _).symm

end Uncached

/-- After any history of runs, reading the suites gives one suite for each source, the suite that
compiling it gives, or the fatal error of the first source that cannot be compiled; with the cache
as with `--no-cache`. -/
theorem suites_cached_eq_uncached (history : List Run) (run : Run)
    (hcollisions : NoCollisions (SeenIn (history ++ [run]))) (hblocks : FitsBlocks (history ++ [run])) :
    ({ run with noCache := false }.suites (cacheFileAfter history)).map Prod.fst =
        run.sources.mapM (fun path => compileTestSuite path (run.files.contents path)) ∧
      ({ run with noCache := true }.suites (cacheFileAfter history)).map Prod.fst =
        run.sources.mapM (fun path => compileTestSuite path (run.files.contents path)) := by
  have hrun : run ∈ history ++ [run] := by simp
  have hfile := cacheFileAfter_sound hcollisions hblocks
    (fun _ hmem => List.mem_append_left [run] hmem) cacheFileSound_none
  have hagree := readSuites_agree hrun hcollisions hblocks (found_sound hfile run)
  have hcompiled : (run.sources.foldlM (readSource run.files false) ⟨.empty, .empty, []⟩).map
      ReadState.suites =
        run.sources.mapM fun path => compileTestSuite path (run.files.contents path) := by
    rw [foldlM_uncached]
    cases run.sources.mapM fun path => compileTestSuite path (run.files.contents path) <;> rfl
  have hcached : { run with noCache := false }.suites (cacheFileAfter history) =
      run.sources.foldlM (readSource run.files true)
        ⟨cacheLoad (run.found (cacheFileAfter history)), .empty, []⟩ >>=
      fun state => .ok (state.suites, some state.saveStore) := rfl
  have huncached : { run with noCache := true }.suites (cacheFileAfter history) =
      run.sources.foldlM (readSource run.files false) ⟨.empty, .empty, []⟩ >>=
      fun state => .ok (state.suites, none) := rfl
  rw [hcached, huncached, ← hcompiled]
  unfold cacheFileAfter
  generalize run.sources.foldlM (readSource run.files true) _ = cached at hagree ⊢
  generalize run.sources.foldlM (readSource run.files false) _ = uncached at hagree ⊢
  cases hagree with
  | stopped halt => exact ⟨rfl, rfl⟩
  | reading hsuites _ _ => exact ⟨congrArg Except.ok hsuites, rfl⟩

/-- A file is edited between two runs. -/
theorem suites_cached_eq_uncached_edited :
    let path : CString := ⟨ascii "a.test", by decide⟩
    let before : FileVersion := ⟨1, ascii "\n"⟩
    let after : FileVersion := ⟨2, ascii "@test(\"t\")\n@whenRun(\"x\")\n@endtest\n"⟩
    let first : Run := ⟨Files.empty.replace path before (by decide), [path], false, false, true⟩
    let second : Run := ⟨Files.empty.replace path after (by decide), [path], true, false, true⟩
    ({ second with noCache := false }.suites (cacheFileAfter [first])).map Prod.fst =
      [path].mapM fun path => compileTestSuite path (second.files.contents path) := by
  intro path before after first second
  have hpath : path.bytes.length < pathMax := by decide
  have hfirst : ∀ other v, first.files.version other = some v → other = path ∧ v = before := by
    intro other v hv
    cases Files.replace_version hpath hv with
    | inl hnew => exact hnew
    | inr hold => cases hold.2
  have hsecond : ∀ other v, second.files.version other = some v → other = path ∧ v = after := by
    intro other v hv
    cases Files.replace_version hpath hv with
    | inl hnew => exact hnew
    | inr hold => cases hold.2
  have hseen : ∀ other v, SeenIn [first, second] other v → v = before ∨ v = after := by
    intro other v hv
    obtain ⟨run, hrun, hversion⟩ := hv
    cases hrun with
    | head => exact Or.inl (hfirst other v hversion).2
    | tail _ hrun =>
        obtain rfl := List.mem_singleton.mp hrun
        exact Or.inr (hsecond other v hversion).2
  have hcollisions : NoCollisions (SeenIn [first, second]) := by
    intro other v w hv hw hstat _
    have hmtimes : before.stat ≠ after.stat := by decide
    obtain rfl | rfl := hseen other v hv <;> obtain rfl | rfl := hseen other w hw
    · rfl
    · exact absurd hstat hmtimes
    · exact absurd hstat.symm hmtimes
    · rfl
  have hblocks : FitsBlocks [first, second] := by
    intro run hrun other _ v suite hversion hcompile
    cases hrun with
    | head =>
        obtain ⟨rfl, rfl⟩ := hfirst other v hversion
        have hsuite : compileTestSuite path (some before.contents) = .ok ⟨path, []⟩ := by
          decide +kernel
        cases hsuite.symm.trans hcompile
        decide +kernel
    | tail _ hrun =>
        obtain rfl := List.mem_singleton.mp hrun
        obtain ⟨rfl, rfl⟩ := hsecond other v hversion
        have hsuite : compileTestSuite path (some after.contents) =
            .ok ⟨path, [{ makeProgramRunnerTest with
              name := some (ascii "t")
              flags := testFlagHasWhen ||| testFlagIncomplete
              programPath := some (ascii "x") }]⟩ := by
          decide +kernel
        cases hsuite.symm.trans hcompile
        decide +kernel
  exact (suites_cached_eq_uncached [first] second hcollisions hblocks).1

end JCUnit
