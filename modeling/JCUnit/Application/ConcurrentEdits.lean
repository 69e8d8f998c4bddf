import JCUnit.Application.ReadSuites
import JCUnit.Cache.SoundStore
import JCUnit.Foundation.Transitions

/-!
# Edits during a run

The steps of `read_suites` that read a file, one by one, with an editor that may
replace a file between any two of them, over any number of runs. A suite that is
obtained before its file is replaced, and fingerprinted afterwards, is stored with
the fingerprint of the new contents.
-/

namespace JCUnit

open Transitions

/-- Where a run stands with the source it reads: `cache_lookup` has called `stat`; it has
found nothing; the suite is at hand; `cache_update` has called `stat`. -/
inductive Phase
  | idle
  | statted (path : CString) (st : Option Stat)
  | missed (path : CString)
  | obtained (path : CString) (suite : TestSuite)
  | updating (path : CString) (suite : TestSuite) (st : Option Stat)
deriving DecidableEq

/-- A run in progress. -/
structure Session where
  store : CacheStore
  saveStore : CacheStore
  pending : List CString
  phase : Phase
deriving DecidableEq

/-- A suite `cache_lookup` has returned, and the contents that were hashed for it. -/
structure Served where
  path : CString
  contents : Option Bytes
  suite : TestSuite
deriving DecidableEq

structure World where
  files : Files
  cacheFile : Option Bytes
  session : Option Session
  served : List Served

/-- A directory without a cache file, before the first run. -/
def World.fresh (files : Files) : World := ⟨files, none, none, []⟩

inductive Action
  | replace (path : CString) (v : FileVersion)
  | start (sources : List CString) (clearCache : Bool)
  | lookupStat
  | lookupHash
  | compileRead
  | updateStat
  | updateHash
  | save
  | quit
deriving DecidableEq

def World.resume (w : World) (session : Session) : World := { w with session := some session }

/-- A step of the run in progress. -/
def sessionStep (w : World) (s : Session) : Action → Option World
  | .lookupStat =>
      match s.phase, s.pending with
      | .idle, path :: pending =>
          some (w.resume { s with pending, phase := .statted path (w.files.stat path) })
      | _, _ => none
  | .lookupHash =>
      match s.phase with
      | .statted path st =>
          match cacheLookup s.store path st (w.files.contents path) with
          | .ok (some suite, store) =>
              some { w.resume { s with store, phase := .obtained path suite } with
                served := w.served ++ [⟨path, w.files.contents path, suite⟩] }
          | .ok (none, store) => some (w.resume { s with store, phase := .missed path })
          | .error _ => some { w with session := none }
      | _ => none
  | .compileRead =>
      match s.phase with
      | .missed path =>
          match compileTestSuite path (w.files.contents path) with
          | .ok suite => some (w.resume { s with phase := .obtained path suite })
          | .error _ => some { w with session := none }
      | _ => none
  | .updateStat =>
      match s.phase with
      | .obtained path suite =>
          some (w.resume { s with phase := .updating path suite (w.files.stat path) })
      | _ => none
  | .updateHash =>
      match s.phase with
      | .updating path suite st =>
          some (w.resume { s with
            saveStore := cacheUpdate s.saveStore path st (w.files.contents path) suite
            phase := .idle })
      | _ => none
  | .save =>
      match s.phase, s.pending with
      | .idle, [] => some { w with cacheFile := some (savedFile s.saveStore), session := none }
      | _, _ => none
  | .quit => some { w with session := none }
  | _ => none

def World.step (w : World) : Action → Option World
  | .replace path v =>
      if hpath : path.bytes.length < pathMax then
        some { w with files := w.files.replace path v hpath }
      else none
  | .start sources clearCache =>
      match w.session with
      | some _ => none
      | none =>
          let cacheFile := if clearCache then none else w.cacheFile
          some { w with
            cacheFile
            session := some ⟨cacheLoad cacheFile, .empty, sources, .idle⟩ }
  | action =>
      match w.session with
      | some s => sessionStep w s action
      | none => none

/-- `cache_lookup` comes to the hash of the file: there is an entry with its path, and the mtime and
the size agree. -/
def CacheStore.hashesFor (store : CacheStore) (path : CString) (st : Option Stat) : Bool :=
  match st, store.find path with
  | some st, some entry => entry.mtime = st.mtime && entry.fileSize = st.size
  | _, _ => false

/-- `cache_update` has an entry for the path, or room for one. -/
def CacheStore.takes (store : CacheStore) (path : CString) : Bool :=
  (store.find path).isSome || store.entries.length < cacheMaxEntries

/-- The run still reads this file for something it has in hand: for the hash of its lookup, or for
the fingerprint of its suite. -/
def Session.holds (s : Session) (path : CString) : Bool :=
  match s.phase with
  | .statted held st => held = path && s.store.hashesFor held st
  | .obtained held _ => held = path && s.saveStore.takes held
  | .updating held _ st => held = path && (st.isSome && s.saveStore.takes held)
  | _ => false

/-- No file is replaced while the run holds it, and a suite that is compiled fits a block of the
cache's memory pool. -/
def calm (w : World) (action : Action) : Bool :=
  match w.session with
  | none => true
  | some s =>
      match action, s.phase with
      | .replace path _, _ => !s.holds path
      | .compileRead, .missed path =>
          match compileTestSuite path (w.files.contents path) with
          | .ok suite => (serialized suite).length ≤ defaultMemoryBlobSize
          | .error _ => true
      | _, _ => true

/-- The versions a file has at the start or is replaced by. -/
def SeenBy (w : World) (actions : List Action) (path : CString) (v : FileVersion) : Prop :=
  w.files.version path = some v ∨ .replace path v ∈ actions

section Failure

/-- The steps of a run over one file, up to the lookup in the next run. The editor replaces
the file after it has been compiled and before it is fingerprinted. -/
def lateEdit (path : CString) (v : FileVersion) : List Action :=
  [.start [path] false, .lookupStat, .lookupHash, .compileRead, .replace path v, .updateStat,
    .updateHash, .save, .start [path] false, .lookupStat, .lookupHash]

/-- The next run is served the suite of the contents that are gone. -/
theorem stale_suite_served :
    let path : CString := ⟨ascii "a.test", by decide⟩
    let before : FileVersion := ⟨1, ascii "\n"⟩
    let after : FileVersion := ⟨2, ascii "@test(\"t\")\n@whenRun(\"x\")\n@endtest\n"⟩
    let start := World.fresh (Files.empty.replace path before (by decide))
    NoCollisions (SeenBy start (lateEdit path after)) ∧
      ∃ w, run World.step (fun _ _ => true) start (lateEdit path after) = some w ∧
        ∃ s ∈ w.served, s.contents = some after.contents ∧
          compileTestSuite s.path s.contents ≠ .ok s.suite := by
  intro path before after start
  have hpath : path.bytes.length < pathMax := by decide
  constructor
  · have hseen : ∀ other v, SeenBy start (lateEdit path after) other v → v = before ∨ v = after := by
      intro other v hv
      cases hv with
      | inl hversion =>
          cases Files.replace_version hpath hversion with
          | inl hnew => exact Or.inl hnew.2
          | inr hold => cases hold.2
      | inr hreplace =>
          simp only [lateEdit, List.mem_cons, reduceCtorEq, false_or, Action.replace.injEq,
            List.not_mem_nil, or_false] at hreplace
          exact Or.inr hreplace.2
    have hmtimes : before.stat ≠ after.stat := by decide
    intro other v w hv hw hstat _
    obtain rfl | rfl := hseen other v hv <;> obtain rfl | rfl := hseen other w hw
    · rfl
    · exact absurd hstat hmtimes
    · exact absurd hstat.symm hmtimes
    · rfl
  · have hserved : (run World.step (fun _ _ => true) start (lateEdit path after)).map World.served =
        some [⟨path, some after.contents, ⟨path, []⟩⟩] := by
      decide +kernel
    have hcompile : compileTestSuite path (some after.contents) ≠ .ok ⟨path, []⟩ := by
      decide +kernel
    obtain ⟨w, hrun, hlog⟩ := Option.map_eq_some_iff.mp hserved
    refine ⟨w, hrun, ⟨path, some after.contents, ⟨path, []⟩⟩, ?_, rfl, hcompile⟩
    rw [hlog]
    exact List.mem_singleton_self _

end Failure

section Coherence

/-- What the run has in hand belongs to the file as it is now, where it still matters. -/
def PhaseSound (seen : CString → FileVersion → Prop) (files : Files) (s : Session) : Prop :=
  match s.phase with
  | .idle => True
  | .missed _ => True
  | .statted path st => s.store.hashesFor path st = true → st = files.stat path
  | .obtained path suite => s.saveStore.takes path = true →
      ∃ v, files.version path = some v ∧ Compiled seen path v.stat (hashContents v.contents) suite
  | .updating path suite st => (st.isSome && s.saveStore.takes path) = true → st = files.stat path ∧
      ∃ v, files.version path = some v ∧ Compiled seen path v.stat (hashContents v.contents) suite

structure SessionSound (seen : CString → FileVersion → Prop) (files : Files) (s : Session) :
    Prop where
  store : StoreSound seen s.store
  saveStore : StoreSound seen s.saveStore
  phase : PhaseSound seen files s

/-- The invariant of the runs in which every step is calm. -/
structure Coherent (seen : CString → FileVersion → Prop) (w : World) : Prop where
  files : ∀ path v, w.files.version path = some v → seen path v
  cacheFile : CacheFileSound seen w.cacheFile
  session : ∀ s ∈ w.session, SessionSound seen w.files s
  served : ∀ s ∈ w.served, compileTestSuite s.path s.contents = .ok s.suite

variable {seen : CString → FileVersion → Prop} {w w' : World} {s : Session} {path : CString}

theorem hashesFor_of_hit {store store' : CacheStore} {st : Option Stat} {contents : Option Bytes}
    {suite : TestSuite} (h : cacheLookup store path st contents = .ok (some suite, store')) :
    store.hashesFor path st = true := by
  unfold cacheLookup at h
  unfold CacheStore.hashesFor
  cases st with
  | none => cases h
  | some st =>
      cases hfind : store.find path with
      | none =>
          rw [hfind] at h
          cases h
      | some entry =>
          simp only [hfind] at h
          split at h
          case isTrue hmatch => simp [hmatch.1, hmatch.2.1]
          case isFalse => cases h

/-- A path that gets no entry leaves the store as it is. -/
theorem cacheUpdate_eq_self {store : CacheStore} {st : Option Stat}
    (h : ¬(st.isSome && store.takes path) = true) (contents : Option Bytes) (suite : TestSuite) :
    cacheUpdate store path st contents suite = store := by
  unfold cacheUpdate
  cases st with
  | none => rfl
  | some st =>
      have hfull : ¬(store.find path).isSome = true ∧ ¬store.entries.length < cacheMaxEntries := by
        simpa [CacheStore.takes, not_or] using h
      dsimp only
      rw [if_neg hfull.1, dif_neg hfull.2]

theorem phaseSound_replace {files : Files} {v : FileVersion} (h : PhaseSound seen files s)
    (hpath : path.bytes.length < pathMax) (hfree : s.holds path = false) :
    PhaseSound seen (files.replace path v hpath) s := by
  have hkept : ∀ held, held ≠ path →
      (files.replace path v hpath).version held = files.version held := by
    intro held hheld
    exact if_neg hheld
  have hstat : ∀ held, held ≠ path →
      (files.replace path v hpath).stat held = files.stat held := by
    intro held hheld
    exact congrArg (Option.map FileVersion.stat) (hkept held hheld)
  -- a file in hand that still matters is another one
  have hother : ∀ held (matters : Bool), (decide (held = path) && matters) = false →
      matters = true → held ≠ path := by
    intro held matters hnot hmatters heq
    rw [hmatters, Bool.and_true] at hnot
    exact of_decide_eq_false hnot heq
  unfold PhaseSound at h ⊢
  unfold Session.holds at hfree
  cases hphase : s.phase with
  | idle => trivial
  | missed _ => trivial
  | statted held st =>
      rw [hphase] at h hfree
      intro hmatters
      exact (h hmatters).trans (hstat held (hother held _ hfree hmatters)).symm
  | obtained held suite =>
      rw [hphase] at h hfree
      intro hmatters
      obtain ⟨u, hu, hcompiled⟩ := h hmatters
      exact ⟨u, (hkept held (hother held _ hfree hmatters)).trans hu, hcompiled⟩
  | updating held suite st =>
      rw [hphase] at h hfree
      intro hmatters
      have hheld := hother held _ hfree hmatters
      obtain ⟨hst, u, hu, hcompiled⟩ := h hmatters
      exact ⟨hst.trans (hstat held hheld).symm, u, (hkept held hheld).trans hu, hcompiled⟩

theorem Coherent.resume (h : Coherent seen w) (hs : SessionSound seen w.files s) :
    Coherent seen (w.resume s) where
  files := h.files
  cacheFile := h.cacheFile
  session := by
    intro other hother
    cases hother
    exact hs
  served := h.served

theorem Coherent.ended (h : Coherent seen w) : Coherent seen { w with session := none } where
  files := h.files
  cacheFile := h.cacheFile
  session := by
    intro other hother
    cases hother
  served := h.served

theorem Coherent.replace (h : Coherent seen w) {v : FileVersion} (hv : seen path v)
    (hpath : path.bytes.length < pathMax) (hfree : ∀ s ∈ w.session, s.holds path = false) :
    Coherent seen { w with files := w.files.replace path v hpath } where
  files := by
    intro other u hu
    cases Files.replace_version hpath hu with
    | inl hnew =>
        obtain ⟨rfl, rfl⟩ := hnew
        exact hv
    | inr hold => exact h.files other u hold.2
  cacheFile := h.cacheFile
  session := by
    intro s hs
    have hsound := h.session s hs
    exact ⟨hsound.store, hsound.saveStore, phaseSound_replace hsound.phase hpath (hfree s hs)⟩
  served := h.served

theorem Coherent.start (h : Coherent seen w) {cacheFile : Option Bytes}
    (hfile : CacheFileSound seen cacheFile) (sources : List CString) :
    Coherent seen { w with
      cacheFile
      session := some ⟨cacheLoad cacheFile, .empty, sources, .idle⟩ } where
  files := h.files
  cacheFile := hfile
  session := by
    intro s hs
    cases hs
    exact ⟨storeSound_cacheLoad hfile, storeSound_empty, trivial⟩
  served := h.served

/-- A lookup serves only what compiling the file gives. -/
theorem coherent_lookupHash (hcollisions : NoCollisions seen) (h : Coherent seen w)
    (hs : s ∈ w.session) (hstep : sessionStep w s .lookupHash = some w') : Coherent seen w' := by
  have hsound := h.session s hs
  have hphase := hsound.phase
  unfold sessionStep at hstep
  cases hnow : s.phase with
  | statted path st =>
      unfold PhaseSound at hphase
      rw [hnow] at hphase hstep
      obtain ⟨found, store', hlookup, hstore', hfound⟩ :=
        cacheLookup_sound hsound.store path st (w.files.contents path)
      simp only [hlookup] at hstep
      cases found with
      | none =>
          cases hstep
          exact h.resume ⟨hstore', hsound.saveStore, trivial⟩
      | some suite =>
          cases hstep
          obtain ⟨st, hst, hcompiled⟩ := hfound suite rfl
          rw [hphase (hashesFor_of_hit hlookup)] at hst
          unfold Files.stat at hst
          cases hv : w.files.version path with
          | none =>
              rw [hv] at hst
              cases hst
          | some v =>
              have hcontents : w.files.contents path = some v.contents := by
                unfold Files.contents
                rw [hv]
                rfl
              rw [hv] at hst
              cases hst
              rw [hcontents] at hcompiled ⊢
              have hresumed := h.resume (s := { s with store := store', phase := .obtained path suite })
                ⟨hstore', hsound.saveStore, fun _ => ⟨v, hv, hcompiled⟩⟩
              refine ⟨hresumed.files, hresumed.cacheFile, hresumed.session, ?_⟩
              intro served hserved
              cases List.mem_append.mp hserved with
              | inl hold => exact h.served served hold
              | inr hnew =>
                  obtain rfl := List.mem_singleton.mp hnew
                  exact hcompiled.compile_eq hcollisions (h.files path v hv)
  | _ =>
      rw [hnow] at hstep
      cases hstep

theorem coherent_compileRead (h : Coherent seen w) (hs : s ∈ w.session)
    (hcalm : calm w .compileRead = true) (hstep : sessionStep w s .compileRead = some w') :
    Coherent seen w' := by
  have hsound := h.session s hs
  unfold sessionStep at hstep
  unfold calm at hcalm
  rw [hs] at hcalm
  cases hnow : s.phase with
  | missed path =>
      simp only [hnow] at hcalm hstep
      cases hcompile : compileTestSuite path (w.files.contents path) with
      | error _ =>
          rw [hcompile] at hstep
          cases hstep
          exact h.ended
      | ok suite =>
          rw [hcompile] at hstep hcalm
          cases hstep
          apply h.resume
          refine ⟨hsound.store, hsound.saveStore, ?_⟩
          cases hv : w.files.version path with
          | none =>
              unfold Files.contents at hcompile
              rw [hv] at hcompile
              cases hcompile
          | some v =>
              have hshort := w.files.short path (by rw [hv]; rfl)
              unfold Files.contents at hcompile
              rw [hv] at hcompile
              have hfits : (serialized suite).length < 2 ^ 32 :=
                Nat.lt_of_le_of_lt (of_decide_eq_true hcalm) (by decide)
              exact fun _ => ⟨v, hv, Nat.lt_trans hshort (by decide), hfits, v,
                h.files path v hv, rfl, rfl, hcompile⟩
  | _ =>
      rw [hnow] at hstep
      cases hstep

theorem coherent_updateHash (h : Coherent seen w) (hs : s ∈ w.session)
    (hstep : sessionStep w s .updateHash = some w') : Coherent seen w' := by
  have hsound := h.session s hs
  have hphase := hsound.phase
  unfold sessionStep at hstep
  cases hnow : s.phase with
  | updating path suite st =>
      unfold PhaseSound at hphase
      rw [hnow] at hphase hstep
      cases hstep
      apply h.resume
      refine ⟨hsound.store, ?_, trivial⟩
      by_cases htakes : (st.isSome && s.saveStore.takes path) = true
      · obtain ⟨rfl, v, hv, hcompiled⟩ := hphase htakes
        unfold Files.stat Files.contents
        rw [hv]
        exact cacheUpdate_sound hsound.saveStore hcompiled
      · rw [cacheUpdate_eq_self htakes]
        exact hsound.saveStore
  | _ =>
      rw [hnow] at hstep
      cases hstep

theorem coherent_lookupStat (h : Coherent seen w) (hs : s ∈ w.session)
    (hstep : sessionStep w s .lookupStat = some w') : Coherent seen w' := by
  have hsound := h.session s hs
  unfold sessionStep at hstep
  cases hnow : s.phase with
  | idle =>
      cases hpending : s.pending with
      | nil =>
          rw [hnow, hpending] at hstep
          cases hstep
      | cons path pending =>
          rw [hnow, hpending] at hstep
          cases hstep
          apply h.resume
          exact ⟨hsound.store, hsound.saveStore, fun _ => rfl⟩
  | _ =>
      rw [hnow] at hstep
      cases hstep

theorem coherent_updateStat (h : Coherent seen w) (hs : s ∈ w.session)
    (hstep : sessionStep w s .updateStat = some w') : Coherent seen w' := by
  have hsound := h.session s hs
  have hphase := hsound.phase
  unfold sessionStep at hstep
  cases hnow : s.phase with
  | obtained path suite =>
      unfold PhaseSound at hphase
      rw [hnow] at hphase hstep
      cases hstep
      apply h.resume
      refine ⟨hsound.store, hsound.saveStore, ?_⟩
      intro htakes
      rw [Bool.and_eq_true] at htakes
      exact ⟨rfl, hphase htakes.2⟩
  | _ =>
      rw [hnow] at hstep
      cases hstep

theorem coherent_save (h : Coherent seen w) (hs : s ∈ w.session)
    (hstep : sessionStep w s .save = some w') : Coherent seen w' := by
  have hsound := h.session s hs
  unfold sessionStep at hstep
  cases hnow : s.phase with
  | idle =>
      cases hpending : s.pending with
      | nil =>
          rw [hnow, hpending] at hstep
          cases hstep
          have hended := h.ended
          refine ⟨h.files, ?_, hended.session, h.served⟩
          intro contents hcontents
          cases hcontents
          exact ⟨s.saveStore, rfl, hsound.saveStore⟩
      | cons _ _ =>
          rw [hnow, hpending] at hstep
          cases hstep
  | _ =>
      rw [hnow] at hstep
      cases hstep

/-- Any step but an edit and a start is one of the run in progress. -/
theorem session_of_step {action : Action} (hstep : w.step action = some w')
    (hreplace : ∀ path v, action ≠ .replace path v)
    (hstart : ∀ sources clearCache, action ≠ .start sources clearCache) :
    ∃ s ∈ w.session, sessionStep w s action = some w' := by
  unfold World.step at hstep
  split at hstep
  · exact absurd rfl (hreplace _ _)
  · exact absurd rfl (hstart _ _)
  · split at hstep
    case h_1 s hs => exact ⟨s, hs, hstep⟩
    case h_2 => cases hstep

/-- Every calm step keeps the world coherent. -/
theorem coherent_step (hcollisions : NoCollisions seen) {action : Action}
    (hseen : ∀ path v, action = .replace path v → seen path v) (h : Coherent seen w)
    (hcalm : calm w action = true) (hstep : w.step action = some w') : Coherent seen w' := by
  cases action with
  | replace path v =>
      simp only [World.step] at hstep
      split at hstep
      case isTrue hpath =>
        cases hstep
        apply h.replace (hseen path v rfl) hpath
        intro s hs
        unfold calm at hcalm
        rw [hs] at hcalm
        simpa using hcalm
      case isFalse =>
        cases hstep
  | start sources clearCache =>
      simp only [World.step] at hstep
      cases hsession : w.session with
      | some _ =>
          rw [hsession] at hstep
          cases hstep
      | none =>
          rw [hsession] at hstep
          cases hstep
          apply h.start
          split
          · exact cacheFileSound_none
          · exact h.cacheFile
  | lookupStat =>
      obtain ⟨s, hs, hstep⟩ := session_of_step hstep (by simp) (by simp)
      exact coherent_lookupStat h hs hstep
  | lookupHash =>
      obtain ⟨s, hs, hstep⟩ := session_of_step hstep (by simp) (by simp)
      exact coherent_lookupHash hcollisions h hs hstep
  | compileRead =>
      obtain ⟨s, hs, hstep⟩ := session_of_step hstep (by simp) (by simp)
      exact coherent_compileRead h hs hcalm hstep
  | updateStat =>
      obtain ⟨s, hs, hstep⟩ := session_of_step hstep (by simp) (by simp)
      exact coherent_updateStat h hs hstep
  | updateHash =>
      obtain ⟨s, hs, hstep⟩ := session_of_step hstep (by simp) (by simp)
      exact coherent_updateHash h hs hstep
  | save =>
      obtain ⟨s, hs, hstep⟩ := session_of_step hstep (by simp) (by simp)
      exact coherent_save h hs hstep
  | quit =>
      obtain ⟨s, hs, hstep⟩ := session_of_step hstep (by simp) (by simp)
      cases hstep
      exact h.ended

/-- In every run of calm steps, a lookup that returns a suite returns the one that compiling
the hashed contents gives. -/
theorem served_of_calm (files : Files) (actions : List Action) (w : World)
    (hcollisions : NoCollisions (SeenBy (World.fresh files) actions))
    (hrun : run World.step calm (World.fresh files) actions = some w) :
    ∀ s ∈ w.served, compileTestSuite s.path s.contents = .ok s.suite := by
  have hfresh : Coherent (SeenBy (World.fresh files) actions) (World.fresh files) := by
    refine ⟨fun _ _ hv => Or.inl hv, cacheFileSound_none, ?_, ?_⟩ <;> intro _ hmem <;> cases hmem
  have hcoherent := run_invariant (I := Coherent (SeenBy (World.fresh files) actions)) (by
    intro w action w' haction hw hcalm hstep
    apply coherent_step hcollisions ?_ hw hcalm hstep
    intro path v heq
    rw [heq] at haction
    exact Or.inr haction) hfresh hrun
  exact hcoherent.served

/-- Two runs over one file, which is replaced between them and replaced back in the second. -/
theorem served_of_calm_replaced_back :
    let path : CString := ⟨ascii "a.test", by decide⟩
    let version : FileVersion := ⟨1, ascii "\n"⟩
    let start := World.fresh (Files.empty.replace path version (by decide))
    let actions : List Action :=
      [.start [path] false, .lookupStat, .lookupHash, .compileRead, .updateStat, .updateHash,
        .save, .replace path ⟨2, ascii "\n\n"⟩, .start [path] false, .replace path version,
        .lookupStat, .lookupHash]
    ∃ w, run World.step calm start actions = some w ∧ w.served.length = 1 ∧
      ∀ s ∈ w.served, compileTestSuite s.path s.contents = .ok s.suite := by
  intro path version start actions
  have hpath : path.bytes.length < pathMax := by decide
  have hserved : (run World.step calm start actions).map (fun w => w.served.length) = some 1 := by
    decide +kernel
  obtain ⟨w, hrun, hlength⟩ := Option.map_eq_some_iff.mp hserved
  refine ⟨w, hrun, hlength, served_of_calm _ actions w ?_ hrun⟩
  have hseen : ∀ other v, SeenBy start actions other v → v = version ∨ v = ⟨2, ascii "\n\n"⟩ := by
    intro other v hv
    cases hv with
    | inl hversion =>
        cases Files.replace_version hpath hversion with
        | inl hnew => exact Or.inl hnew.2
        | inr hold => cases hold.2
    | inr hreplace =>
        simp only [actions, List.mem_cons, reduceCtorEq, false_or, Action.replace.injEq,
          List.not_mem_nil, or_false] at hreplace
        exact hreplace.symm.imp And.right And.right
  have hmtimes : version.stat ≠ FileVersion.stat ⟨2, ascii "\n\n"⟩ := by decide
  intro other v u hv hu hstat _
  obtain rfl | rfl := hseen other v hv <;> obtain rfl | rfl := hseen other u hu
  · rfl
  · exact absurd hstat hmtimes
  · exact absurd hstat.symm hmtimes
  · rfl

end Coherence

end JCUnit
