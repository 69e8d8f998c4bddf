import JCUnit.Application.FetchSources
import JCUnit.Application.ReadSuites
import JCUnit.Foundation.FilledTable
import JCUnit.Memory.SinglyLinkedList

/-!
# The sources as a linked list

`fetch_sources` and `read_suites` with the `struct slist` between them: its head is a variable of
`main`, and every source found goes in behind the last one by an end pointer that the callback of
the directory walk carries along. The suites are stored in a table, which has as many entries as
there are nodes in the list. The run has the suites that a run over a list of paths has.
-/

namespace JCUnit

open StateError LinkedChain FilledTable

/-- Where a `struct slist` of the sources lies: `sources` is a variable of `main`, and the sources
come from the memory pool. -/
inductive SourceAddress
  | sources
  | source (index : Nat)
deriving DecidableEq

/-- The links of the nodes, the names in the sources that these are in, and how many sources have
been allocated. -/
structure SourceMemory where
  links : Memory SourceAddress
  filename : SourceAddress → CString
  allocated : Nat

/-- `make_source`, without a copy of the name. -/
def makeSource (memory : SourceMemory) (filename : CString) : SourceMemory × SourceAddress :=
  let source := .source memory.allocated
  ({ links := slistInit memory.links source
     filename := Function.update memory.filename source filename
     allocated := memory.allocated + 1 }, source)

namespace Linked

/-- The entries of `sources_cache`, the memory, and the node whose link `end_sources` points to. -/
structure FetchState where
  sourcesCache : List CString
  memory : SourceMemory
  endSources : SourceAddress

/-- The sources and the end pointer after a source has been appended. -/
def FetchState.appendSource (state : FetchState) (sourcePath : CString) : FetchState :=
  let (memory, source) := makeSource state.memory sourcePath
  let (links, endSources) := slistAppend memory.links state.endSources source
  { sourcesCache := state.sourcesCache ++ [sourcePath]
    memory := { memory with links }
    endSources }

section Functions

variable (fs : FileSystem)

def fetchOneSource (state : FetchState) (sourcePath : CString) : Except Halt FetchState :=
  if !fsIsFileExists fs sourcePath then
    .error (fatalError (ascii "The file \"" ++ sourcePath.bytes ++ ascii "\" is not exists!"))
  else if sourcePath ∈ state.sourcesCache then .ok state
  else if state.sourcesCache.length < sourcesCacheSize then .ok (state.appendSource sourcePath)
  else .error .undefined

def fetchDirectorySources : FsReadDirFunc FetchState := fun sourcePath state =>
  if !fsCheckExtension sourcePath (some testExtension) then .ok (true, state)
  else do
    let state ← fetchOneSource fs state sourcePath
    return (true, state)

def fetchArgument (state : FetchState) (arg : CString) : Except Halt FetchState :=
  if isOption arg then .ok state
  else
    match fs.realpath arg with
    | none =>
        .error (fatalError (ascii "Can't to resolve the path \"" ++ arg.bytes ++ ascii "\"!"))
    | some resolvedPath =>
        if fsIsDir fs resolvedPath then
          JCUnit.fsReadDir fs resolvedPath (fetchDirectorySources fs) state
        else fetchOneSource fs state resolvedPath

def fetchDefaultSources (state : FetchState) : Except Halt FetchState :=
  match fs.realpath defaultTestsPath with
  | none =>
      .error (fatalError (ascii "There are no files provided or default tests path \"" ++
        defaultTestsPath.bytes ++ ascii "\" not found!"))
  | some resolvedPath =>
      if !fsIsDir fs resolvedPath then
        .error (fatalError (ascii "Can't found the specified directory \"" ++
          defaultTestsPath.bytes ++ ascii "\"!"))
      else JCUnit.fsReadDir fs resolvedPath (fetchDirectorySources fs) state

/-- `fetch_sources` over the arguments behind the program's name. -/
def fetchSources (memory : SourceMemory) (args : List CString) : Except Halt SourceMemory := do
  let state ← args.foldlM (fetchArgument fs) ⟨[], memory, .sources⟩
  let state ←
    if slistIsEmpty state.memory.links .sources then fetchDefaultSources fs state else .ok state
  return state.memory

end Functions

/-- The loaded store, the store to save, and the table of the suites with `i`. A store behind the
end of the table is undefined. -/
structure ReadState where
  store : CacheStore
  saveStore : CacheStore
  suites : Table TestSuite

/-- One round of the loop of `read_suites`. -/
def readSource (files : Files) (useCache : Bool) (memory : SourceMemory) (state : ReadState)
    (iterator : SourceAddress) : Except Halt ReadState := do
  let filename := memory.filename iterator
  let (found, store) ←
    if useCache then lookupSuite state.store filename (files.stat filename) (files.contents filename)
    else .ok (none, state.store)
  let suite ← orCompile found filename (files.contents filename)
  let saveStore :=
    if useCache then
      cacheUpdate state.saveStore filename (files.stat filename) (files.contents filename) suite
    else state.saveStore
  let suites ← state.suites.store .undefined suite
  return ⟨store, saveStore, suites⟩

/-- The table of the suites, `suites_count`, and the store to save if the cache is used. -/
def readSuites (files : Files) (memory : SourceMemory) (noCache : Bool)
    (cacheFile : Option Bytes) :
    Except Halt (List (Option TestSuite) × UInt32 × Option CacheStore) := do
  let useCache := !noCache
  let store := if useCache then cacheLoad cacheFile else .empty
  let suitesCount ← slistCount memory.links memory.allocated .sources
  let state ← slistForeachSafe (fun _ => memory.links) memory.allocated .sources
    (readSource files useCache memory)
    ⟨store, .empty, .ofSize TestSuite suitesCount.toNat⟩
  return (state.suites.entries, suitesCount, if useCache then some state.saveStore else none)

/-- What `main` does from `slist_init(&sources)` to the suites it has read. It stops earlier if
there are no sources. -/
def collectSuites (fs : FileSystem) (files : Files) (memory : SourceMemory) (args : List CString)
    (noCache : Bool) (cacheFile : Option Bytes) :
    Except Halt (Option (List (Option TestSuite) × UInt32 × Option CacheStore)) := do
  let memory ← fetchSources fs { memory with links := slistInit memory.links .sources } args
  let count ← slistCount memory.links memory.allocated .sources
  if count = 0 then return none
  else
    let suites ← readSuites files memory noCache cacheFile
    return some suites

section Walks

variable {σ τ : Type} {R : σ → τ → Prop} {f : FsReadDirFunc σ} {g : FsReadDirFunc τ}

/-- The walks have the same queue and related contexts. -/
structure Alike (R : σ → τ → Prop) (s : JCUnit.ReadDirState σ) (t : JCUnit.ReadDirState τ) :
    Prop where
  queue : s.queue = t.queue
  requestToQuit : s.requestToQuit = t.requestToQuit
  context : R s.context t.context

/-- The callbacks say the same about going on and leave related contexts. -/
def AlikeCallbacks (R : σ → τ → Prop) (f : FsReadDirFunc σ) (g : FsReadDirFunc τ) : Prop :=
  ∀ path s t, R s t → Corresponds (fun a b => a.1 = b.1 ∧ R a.2 b.2) (f path s) (g path t)

theorem readEntry_alike (hcallbacks : AlikeCallbacks R f g) (path : CString)
    {s : JCUnit.ReadDirState σ} {t : JCUnit.ReadDirState τ} (entry : Dirent) (h : Alike R s t) :
    Corresponds (Alike R) (JCUnit.readEntry f path s entry) (JCUnit.readEntry g path t entry) := by
  obtain ⟨queue, quit, context⟩ := s
  obtain ⟨queue', quit', context'⟩ := t
  obtain ⟨hqueue, hquit, hcontext⟩ := h
  obtain rfl : queue = queue' := hqueue
  obtain rfl : quit = quit' := hquit
  unfold JCUnit.readEntry
  dsimp only
  split
  case isTrue => exact .ok ⟨rfl, rfl, hcontext⟩
  case isFalse =>
    cases entry.type with
    | directory =>
        dsimp only
        split
        case isTrue => exact .ok ⟨rfl, rfl, hcontext⟩
        case isFalse => exact .ok ⟨rfl, rfl, hcontext⟩
    | regular =>
        apply (hcallbacks (getEntryPath path entry.name) context context' hcontext).bind
        rintro ⟨continues, _⟩ ⟨_, _⟩ ⟨rfl, hcontext'⟩
        exact .ok ⟨rfl, rfl, hcontext'⟩
    | other => exact .ok ⟨rfl, rfl, hcontext⟩

theorem readDirLoop_alike (hcallbacks : AlikeCallbacks R f g) (fs : FileSystem) (rounds : Nat)
    {s : JCUnit.ReadDirState σ} {t : JCUnit.ReadDirState τ} (h : Alike R s t) :
    Corresponds (Alike R) (JCUnit.readDirLoop fs f rounds s) (JCUnit.readDirLoop fs g rounds t) := by
  induction rounds generalizing s t with
  | zero =>
      unfold JCUnit.readDirLoop
      rw [h.requestToQuit, h.queue]
      split
      · exact .ok h
      · cases t.queue with
        | nil => exact .ok h
        | cons path queue => exact .error _
  | succ rounds ih =>
      unfold JCUnit.readDirLoop
      rw [h.requestToQuit, h.queue]
      split
      · exact .ok h
      · cases t.queue with
        | nil => exact .ok h
        | cons path queue =>
            dsimp only
            cases fs.opendir path with
            | none => exact .error _
            | some entries =>
                apply Corresponds.bind (R := Alike R)
                · apply Corresponds.foldlM fun s t entry => readEntry_alike hcallbacks path entry
                  exact ⟨rfl, rfl, h.context⟩
                · intro s t hst
                  exact ih hst

/-- A walk says nothing else about its context than its callback does. -/
theorem fsReadDir_alike (hcallbacks : AlikeCallbacks R f g) (fs : FileSystem) (path : CString)
    {s : σ} {t : τ} (h : R s t) :
    Corresponds R (JCUnit.fsReadDir fs path f s) (JCUnit.fsReadDir fs path g t) := by
  apply (readDirLoop_alike hcallbacks fs _ ⟨rfl, rfl, h⟩).bind
  intro s t hst
  exact .ok hst.context

end Walks

section Collecting

variable {memory : SourceMemory} {sources : List CString} {fs : FileSystem}

/-- The source with this number has this name. -/
structure HoldsSource (memory : SourceMemory) (i : Nat) (filename : CString) : Prop where
  allocated : i < memory.allocated
  filename : memory.filename (.source i) = filename

/-- The list has a node for each source, in a source with this name. -/
def Lists (memory : SourceMemory) (sources : List CString) : Prop :=
  ∃ places, RecordChain memory.links .sources .source memory.allocated (HoldsSource memory) sources
    places

/-- The list has the sources, and the end pointer is at its end. -/
structure Collects (s : FetchState) (t : JCUnit.FetchState) : Prop where
  sourcesCache : s.sourcesCache = t.sourcesCache
  listed : OpenChain s.memory.links .sources .source 0 s.memory.allocated (HoldsSource s.memory)
    s.endSources t.sources

theorem Collects.lists {s : FetchState} {t : JCUnit.FetchState} (h : Collects s t) :
    Lists s.memory t.sources :=
  h.listed.exists_places

theorem HoldsSource.makeSource {i : Nat} {filename : CString} (h : HoldsSource memory i filename)
    (sourcePath : CString) : HoldsSource (makeSource memory sourcePath).1 i filename where
  allocated := Nat.lt_succ_of_lt h.allocated
  filename := by
    have hne : SourceAddress.source i ≠ .source memory.allocated := fun heq =>
      absurd h.allocated (Nat.not_lt.mpr (Nat.le_of_eq (SourceAddress.source.inj heq).symm))
    exact (Function.update_of_ne hne _ _).trans h.filename

theorem Collects.appendSource {s : FetchState} {t : JCUnit.FetchState} (h : Collects s t)
    (sourcePath : CString) :
    Collects (s.appendSource sourcePath)
      { sourcesCache := t.sourcesCache ++ [sourcePath], sources := t.sources ++ [sourcePath] } where
  sourcesCache := congrArg (· ++ [sourcePath]) h.sourcesCache
  listed := by
    have hframe : OpenChain (slistInit s.memory.links (.source s.memory.allocated)) .sources .source
        0 s.memory.allocated (HoldsSource (makeSource s.memory sourcePath).1) s.endSources
        t.sources := by
      apply h.listed.frame (slistInit_of_ne SourceAddress.noConfusion) ?_ le_rfl
      · intro i filename hfilename
        exact hfilename.makeSource sourcePath
      · intro i hi
        apply slistInit_of_ne
        rintro ⟨⟩
        exact Nat.lt_irrefl _ hi
    exact hframe.append (fun i j heq => SourceAddress.source.inj heq) SourceAddress.noConfusion
      (Nat.zero_le _) (Nat.lt_succ_self _) (fun _ _ h => ⟨h.allocated, h.filename⟩)
      ⟨Nat.lt_succ_self _, Function.update_self _ _ _⟩

theorem fetchOneSource_corresponds {s : FetchState} {t : JCUnit.FetchState} (h : Collects s t)
    (sourcePath : CString) :
    Corresponds Collects (fetchOneSource fs s sourcePath)
      (JCUnit.fetchOneSource fs t sourcePath) := by
  unfold fetchOneSource JCUnit.fetchOneSource
  rw [h.sourcesCache]
  split
  · exact .error _
  split
  · exact .ok h
  split
  · exact .ok (h.appendSource sourcePath)
  · exact .error _

theorem fetchDirectorySources_corresponds :
    AlikeCallbacks Collects (fetchDirectorySources fs) (JCUnit.fetchDirectorySources fs) := by
  intro sourcePath s t h
  unfold fetchDirectorySources JCUnit.fetchDirectorySources
  split
  · exact .ok ⟨rfl, h⟩
  · apply (fetchOneSource_corresponds h sourcePath).bind
    intro s t hst
    exact .ok ⟨rfl, hst⟩

theorem fetchArgument_corresponds {s : FetchState} {t : JCUnit.FetchState} (arg : CString)
    (h : Collects s t) :
    Corresponds Collects (fetchArgument fs s arg) (JCUnit.fetchArgument fs t arg) := by
  unfold fetchArgument JCUnit.fetchArgument
  split
  · exact .ok h
  · cases fs.realpath arg with
    | none => exact .error _
    | some resolvedPath =>
        dsimp only
        split
        · exact fsReadDir_alike fetchDirectorySources_corresponds fs resolvedPath h
        · exact fetchOneSource_corresponds h resolvedPath

theorem fetchDefaultSources_corresponds {s : FetchState} {t : JCUnit.FetchState}
    (h : Collects s t) :
    Corresponds Collects (fetchDefaultSources fs s) (JCUnit.fetchDefaultSources fs t) := by
  unfold fetchDefaultSources JCUnit.fetchDefaultSources
  cases fs.realpath defaultTestsPath with
  | none => exact .error _
  | some resolvedPath =>
      dsimp only
      split
      · exact .error _
      · exact fsReadDir_alike fetchDirectorySources_corresponds fs resolvedPath h

/-- The list has the sources that a list of paths gets, whatever is in the memory before. -/
theorem fetchSources_corresponds (fs : FileSystem) (memory : SourceMemory) (args : List CString) :
    Corresponds Lists
      (fetchSources fs { memory with links := slistInit memory.links .sources } args)
      (JCUnit.fetchSources fs args) := by
  apply Corresponds.bind (R := Collects)
  · apply Corresponds.foldlM fun s t arg => fetchArgument_corresponds arg
    exact ⟨rfl, .of_self (slistInit_self memory.links .sources)⟩
  · intro s t hst
    dsimp only
    obtain ⟨places, hchain⟩ := hst.lists
    rw [if_congr (slistIsEmpty_records hchain) rfl rfl]
    split
    · exact (fetchDefaultSources_corresponds hst).bind fun s t hst => .ok hst.lists
    · exact .ok hst.lists

end Collecting

section Reading

variable {memory : SourceMemory} {sources : List CString} {files : Files} {useCache : Bool}

/-- The table has the suites that have been read, and room for those of as many sources as there
are still to read. -/
structure Fills (size room : Nat) (s : ReadState) (t : JCUnit.ReadState) : Prop where
  store : s.store = t.store
  saveStore : s.saveStore = t.saveStore
  suites : s.suites.Holds size t.suites room

theorem Fills.storeSuite {size room : Nat} {s : ReadState} {t : JCUnit.ReadState}
    (h : Fills size (room + 1) s t) (store saveStore : CacheStore) (suite : TestSuite) :
    Corresponds (Fills size room)
      (do
        let suites ← s.suites.store Halt.undefined suite
        return ⟨store, saveStore, suites⟩)
      (.ok ⟨store, saveStore, t.suites ++ [suite]⟩) := by
  obtain ⟨suites, hstore, hsuites⟩ := h.suites.store Halt.undefined suite
  rw [hstore]
  exact .ok ⟨rfl, rfl, hsuites⟩

theorem readSource_corresponds {size room : Nat} {s : ReadState} {t : JCUnit.ReadState}
    (h : Fills size (room + 1) s t) {iterator : SourceAddress} {filename : CString}
    (hfilename : memory.filename iterator = filename) :
    Corresponds (Fills size room) (readSource files useCache memory s iterator)
      (JCUnit.readSource files useCache t filename) := by
  unfold readSource JCUnit.readSource
  rw [h.store, h.saveStore, hfilename]
  cases useCache with
  | false =>
      simp only [Bool.false_eq_true, if_false]
      exact .bind_self _ fun found => .bind_self _ fun suite => h.storeSuite _ _ suite
  | true =>
      simp only [if_true]
      exact .bind_self _ fun found => .bind_self _ fun suite => h.storeSuite _ _ suite

/-- The loop gives every entry of a table of this size a suite. -/
theorem foldlM_readSource_corresponds {size : Nat} {nodes : List SourceAddress}
    (hnodes : List.Forall₂ (fun node filename => memory.filename node = filename) nodes sources)
    {s : ReadState} {t : JCUnit.ReadState} (h : Fills size sources.length s t) :
    Corresponds (Fills size 0) (nodes.foldlM (readSource files useCache memory) s)
      (sources.foldlM (JCUnit.readSource files useCache) t) := by
  induction hnodes generalizing s t with
  | nil => exact .ok h
  | cons hfilename _ ih =>
      rw [List.foldlM_cons, List.foldlM_cons]
      exact (readSource_corresponds h hfilename).bind fun s t hst => ih hst

/-- What `read_suites` leaves behind when these suites have been read. -/
def tabulated (read : List TestSuite × Option CacheStore) :
    List (Option TestSuite) × UInt32 × Option CacheStore :=
  (read.1.map some, UInt32.ofNat read.1.length, read.2)

theorem Lists.slistCount_eq (h : Lists memory sources) :
    slistCount memory.links memory.allocated .sources = .ok (UInt32.ofNat sources.length) := by
  obtain ⟨places, hchain⟩ := h
  exact slistCount_records hchain

theorem foreach_readSource_corresponds (h : Lists memory sources) (files : Files)
    (useCache : Bool) (store : CacheStore) :
    Corresponds (Fills sources.length 0)
      (slistForeachSafe (fun _ => memory.links) memory.allocated .sources
        (readSource files useCache memory)
        ⟨store, .empty, .ofSize TestSuite sources.length⟩)
      (sources.foldlM (JCUnit.readSource files useCache) ⟨store, .empty, []⟩) := by
  obtain ⟨places, hchain⟩ := h
  have hnodes : List.Forall₂ (fun node filename => memory.filename node = filename)
      (places.map .source) sources :=
    List.forall₂_map_left_iff.mpr (hchain.records.imp fun i filename hi => hi.filename)
  have hvisits : slistForeachSafe (fun _ => memory.links) memory.allocated .sources
      (readSource files useCache memory) ⟨store, .empty, .ofSize TestSuite sources.length⟩ =
      (places.map SourceAddress.source).foldlM (readSource files useCache memory)
        ⟨store, .empty, .ofSize TestSuite sources.length⟩ := by
    apply slistForeachSafe_eq ?_ hchain.table.length_le
    · intros
      rfl
    · exact hchain.table.chain
  rw [hvisits]
  exact foldlM_readSource_corresponds hnodes ⟨rfl, rfl, Table.holds_ofSize _⟩

/-- Every entry of the table gets a suite, and none is stored behind its end, if an `unsigned int`
can count the sources. -/
theorem readSuites_corresponds (h : Lists memory sources) (hcount : sources.length < 2 ^ 32)
    (files : Files) (noCache : Bool) (cacheFile : Option Bytes) :
    Corresponds (fun read suites => read = tabulated suites)
      (readSuites files memory noCache cacheFile)
      (JCUnit.readSuites files sources noCache cacheFile) := by
  have hsize : (UInt32.ofNat sources.length).toNat = sources.length :=
    UInt32.toNat_ofNat_of_lt' hcount
  unfold readSuites JCUnit.readSuites
  rw [h.slistCount_eq, except_ok_bind, hsize]
  apply (foreach_readSource_corresponds h files _ _).bind
  intro s t hst
  refine .ok ?_
  rw [hst.suites.entries_eq, ← hst.suites.counted, hst.saveStore]
  rfl

/-- The linked list of the sources leads to the suites that the list of their paths leads to: the
same runs stop, in the same error or for want of a source, and the table has the same suites. -/
theorem collectSuites_eq (fs : FileSystem) (files : Files) (memory : SourceMemory)
    (args : List CString) (noCache : Bool) (cacheFile : Option Bytes) :
    collectSuites fs files memory args noCache cacheFile = (do
      let sources ← JCUnit.fetchSources fs args
      if sources = [] then return none
      else
        let read ← JCUnit.readSuites files sources noCache cacheFile
        return some (tabulated read)) := by
  have hfetch := fetchSources_corresponds fs memory args
  unfold collectSuites
  cases hplain : JCUnit.fetchSources fs args with
  | error halt =>
      rw [hplain] at hfetch
      generalize fetchSources fs _ args = fetched at hfetch
      cases hfetch
      rfl
  | ok sources =>
      obtain ⟨memory', hmemory, hlists⟩ := hfetch.eq_ok hplain
      have hcount : sources.length < 2 ^ 32 :=
        lt_of_le_of_lt (length_fetchSources hplain) (by decide)
      have hempty : UInt32.ofNat sources.length = 0 ↔ sources = [] := by
        rw [← UInt32.toNat_inj, UInt32.toNat_ofNat_of_lt' hcount]
        exact List.length_eq_zero_iff
      rw [hmemory, except_ok_bind, except_ok_bind, hlists.slistCount_eq, except_ok_bind,
        if_congr hempty rfl rfl]
      split
      · rfl
      · have hread := readSuites_corresponds hlists hcount files noCache cacheFile
        generalize readSuites files memory' noCache cacheFile = linked at hread ⊢
        generalize JCUnit.readSuites files sources noCache cacheFile = plain at hread ⊢
        cases hread with
        | error halt => rfl
        | ok heq =>
            rw [heq]
            rfl

end Reading

end Linked

end JCUnit
