import JCUnit.Application.Main

/-!
# Histories of the whole program

Invocations of the program follow one another in a directory, with any arguments and over files
that may be edited in between. Each of them finds the cache file that the one before has left,
whether that came to its end or not. What an invocation shows, which tests it runs and how it exits
do not tell whether it has used the cache, as long as the programs under test do not look into their
environment for it.
-/

namespace JCUnit

open StateError Projection

/-- A run of the program: what it finds and its arguments. -/
structure Invocation where
  machine : Machine
  args : List CString

def Invocation.result (invocation : Invocation) (cacheFile : Option Bytes) :
    EStateM.Result Halt ProgramState Nat :=
  main invocation.machine invocation.args ⟨.start, cacheFile⟩

def endState {ε σ α : Type} : EStateM.Result ε σ α → σ
  | .ok _ s => s
  | .error _ s => s

/-- The cache file behind an invocation. -/
def Invocation.leaves (invocation : Invocation) (cacheFile : Option Bytes) : Option Bytes :=
  (endState (invocation.result cacheFile)).cacheFile

/-- The cache file behind a history of invocations in a directory that had none. -/
def cacheFileBehind (history : List Invocation) : Option Bytes :=
  history.foldl (fun cacheFile invocation => invocation.leaves cacheFile) none

/-- The invocation as a run that reads its suites through the cache and saves them. -/
def Invocation.reading (invocation : Invocation) : Run where
  files := invocation.machine.files
  sources := ((fetchSources invocation.machine.fs invocation.args).toOption).getD []
  noCache := false
  clearCache := false
  saves := true

/-- Two different contents of a path never agree on mtime, size and hash, and every suite fits a
block of the cache's memory pool. -/
structure CacheAssumptions (invocations : List Invocation) : Prop where
  noCollisions : NoCollisions (SeenIn (invocations.map Invocation.reading))
  fitsBlocks : FitsBlocks (invocations.map Invocation.reading)

section CacheFiles

variable {invocation : Invocation} {invocations : List Invocation} {cacheFile : Option Bytes}

/-- Only a run that uses the cache has a store to save. -/
theorem readSuites_some {files : Files} {sources : List CString} {noCache : Bool}
    {found : Option Bytes} {suites : List TestSuite} {store : CacheStore}
    (h : readSuites files sources noCache found = .ok (suites, some store)) : noCache = false := by
  cases noCache with
  | false => rfl
  | true =>
      obtain ⟨state, -, hstore⟩ := except_bind_eq_ok h
      cases hstore

/-- What was found is left, unless a store has been read that is saved. -/
theorem leaves_cases (invocation : Invocation) (cacheFile : Option Bytes) :
    ∃ found, (found = cacheFile ∨ found = none) ∧
      (invocation.leaves cacheFile = found ∨
        invocation.leaves cacheFile = invocation.reading.leaves found) := by
  obtain ⟨found, hfrom, hplan⟩ := plan_cases invocation.machine invocation.args cacheFile
  refine ⟨found, hfrom, ?_⟩
  unfold Invocation.leaves Invocation.result
  rw [main_eq]
  rcases hplan with
    ⟨halt, hplan, -⟩ | ⟨text, hplan⟩ | ⟨context, sources, suites, store, hplan, -, hsources, hread⟩
  · rw [hplan]
    exact Or.inl rfl
  · rw [hplan]
    exact Or.inl rfl
  rw [hplan]
  dsimp only [Plan.carryOut]
  cases mainRun (invocation.machine.surroundings context) suites context.runMode .start with
  | error halt s => exact Or.inl rfl
  | ok code s =>
      change savedCacheFile invocation.machine store found = found ∨ _
      cases store with
      | none => exact Or.inl rfl
      | some store =>
          unfold savedCacheFile
          cases invocation.machine.opensCacheFile with
          | false => exact Or.inl rfl
          | true =>
              right
              unfold Run.leaves Run.suites Run.found Invocation.reading
              rw [readSuites_some hread] at hread
              rw [hsources, if_neg Bool.false_ne_true]
              dsimp only [Except.toOption, Option.getD_some]
              rw [hread]
              rfl

theorem leaves_sound_of_assumptions (hmem : invocation ∈ invocations)
    (h : CacheAssumptions invocations)
    (hfile : CacheFileSound (SeenIn (invocations.map Invocation.reading)) cacheFile) :
    CacheFileSound (SeenIn (invocations.map Invocation.reading)) (invocation.leaves cacheFile) := by
  obtain ⟨found, hfound, hleaves⟩ := leaves_cases invocation cacheFile
  have hsound : CacheFileSound (SeenIn (invocations.map Invocation.reading)) found := by
    rcases hfound with rfl | rfl
    · exact hfile
    · exact cacheFileSound_none
  rcases hleaves with hsame | hread
  · rw [hsame]
    exact hsound
  · rw [hread]
    exact leaves_sound (List.mem_map_of_mem hmem) h.noCollisions h.fitsBlocks hsound

/-- Every history leaves a sound cache file. -/
theorem cacheFileBehind_sound (h : CacheAssumptions invocations) {history : List Invocation}
    (hhistory : ∀ invocation ∈ history, invocation ∈ invocations) :
    CacheFileSound (SeenIn (invocations.map Invocation.reading)) (cacheFileBehind history) := by
  unfold cacheFileBehind
  have hfrom : ∀ cacheFile : Option Bytes,
      CacheFileSound (SeenIn (invocations.map Invocation.reading)) cacheFile →
      CacheFileSound (SeenIn (invocations.map Invocation.reading))
        (history.foldl (fun cacheFile invocation => invocation.leaves cacheFile) cacheFile) := by
    induction history with
    | nil => exact fun _ hfile => hfile
    | cons invocation history ih =>
        intro cacheFile hfile
        obtain ⟨hmem, hhistory⟩ := List.forall_mem_cons.mp hhistory
        exact ih hhistory _ (leaves_sound_of_assumptions hmem h hfile)
  exact hfrom none cacheFileSound_none

end CacheFiles

section Transparency

variable {machine : Machine} {args : List CString} {found cacheFile : Option Bytes}
  {context : ApplicationContext} {p q : Plan}

/-- Plans that differ in nothing but the cache. -/
inductive Plan.Alike (machine : Machine) : Plan → Plan → Prop
  | stop (halt : Halt) (found found' : Option Bytes) :
      Alike machine (.stop halt found) (.stop halt found')
  | display (text : Bytes) (found found' : Option Bytes) :
      Alike machine (.display text found) (.display text found')
  | test {context context' : ApplicationContext} (suites : List TestSuite)
      (store store' : Option CacheStore) (found found' : Option Bytes)
      (hmode : context.runMode = context'.runMode)
      (hsurroundings : machine.surroundings context = machine.surroundings context') :
      Alike machine (.test context suites store found) (.test context' suites store' found')

theorem Plan.Alike.carryOut (h : p.Alike machine q) :
    projected ProgramState.session (p.carryOut machine) =
      projected ProgramState.session (q.carryOut machine) := by
  cases h with
  | stop halt found found' => rfl
  | display text found found' => rfl
  | test suites store store' found found' hmode hsurroundings =>
      dsimp only [Plan.carryOut]
      rw [hmode, hsurroundings]
      cases mainRun _ suites _ .start <;> rfl

end Transparency

section SingleFile

/-- The root directory with one file in it. -/
def singleFileNode (name : FileName) (location : Location) : Option Node :=
  if location = [] then some (.directory [⟨name, .regular⟩])
  else if location = [name] then some .file
  else none

theorem singleFileNode_some {name : FileName} {location : Location} {node : Node}
    (h : singleFileNode name location = some node) :
    (location = [] ∧ node = .directory [⟨name, .regular⟩]) ∨ (location = [name] ∧ node = .file) := by
  unfold singleFileNode at h
  split at h
  · rename_i hroot
    cases h
    exact Or.inl ⟨hroot, rfl⟩
  split at h
  · rename_i hfile
    cases h
    exact Or.inr ⟨hfile, rfl⟩
  · cases h

def singleFile (name : FileName) : FileSystem where
  node := singleFileNode name
  realpath path := if path = pathOf [name] then some path else none
  depth := 1
  bounded := by
    intro location hnode
    obtain ⟨node, hnode⟩ := Option.isSome_iff_exists.mp hnode
    rcases singleFileNode_some hnode with ⟨rfl, -⟩ | ⟨rfl, -⟩
    · exact Nat.zero_le _
    · exact Nat.le_refl _
  subdirectory := by
    intro location entries entry hnode hentry hsub
    rcases singleFileNode_some hnode with ⟨rfl, heq⟩ | ⟨-, heq⟩
    · cases heq
      rw [List.mem_singleton.mp hentry] at hsub
      cases hsub
    · cases heq
  regular := by
    intro location entries entry hnode hentry hregular
    rcases singleFileNode_some hnode with ⟨rfl, heq⟩ | ⟨-, heq⟩
    · cases heq
      rw [List.mem_singleton.mp hentry, singleFileNode, if_neg (by simp)]
      exact if_pos rfl
    · cases heq
  once := by
    intro location entries hnode
    rcases singleFileNode_some hnode with ⟨-, heq⟩ | ⟨-, heq⟩
    · cases heq
      exact List.nodup_singleton _
    · cases heq
  resolved := by
    intro path resolved h
    split at h
    · rename_i hpath
      cases h
      exact ⟨[name], hpath, by simp [singleFileNode]⟩
    · cases h

/-- Invocations that see one version of one file. -/
theorem assumptions_singleFile {invocations : List Invocation} {path : CString} {v : FileVersion}
    {suite : TestSuite}
    (hversion : ∀ invocation ∈ invocations, ∀ other w,
      invocation.machine.files.version other = some w → other = path ∧ w = v)
    (hcompile : compileTestSuite path (some v.contents) = .ok suite)
    (hfits : (serialized suite).length ≤ defaultMemoryBlobSize) : CacheAssumptions invocations := by
  constructor
  · rintro other w w' ⟨run, hrun, hw⟩ ⟨run', hrun', hw'⟩ - -
    obtain ⟨invocation, hmem, rfl⟩ := List.mem_map.mp hrun
    obtain ⟨invocation', hmem', rfl⟩ := List.mem_map.mp hrun'
    rw [(hversion invocation hmem other w hw).2, (hversion invocation' hmem' other w' hw').2]
  · intro run hrun other _ w suite' hw hsuite
    obtain ⟨invocation, hmem, rfl⟩ := List.mem_map.mp hrun
    obtain ⟨rfl, rfl⟩ := hversion invocation hmem other w hw
    cases hcompile.symm.trans hsuite
    exact hfits

end SingleFile

end JCUnit
