import JCUnit.Cache.Store
import JCUnit.Compile.Compiler

/-!
# Reading the suites of a run

`read_suites` with and without the cache, and what a run of the program leaves
in the cache file.
-/

namespace JCUnit

/-- `PATH_MAX`, with the NUL. -/
def pathMax : Nat := 4096

/-- The files of a system, by path. It knows no file by a longer path. -/
structure Files where
  version : CString → Option FileVersion
  short : ∀ path, (version path).isSome → path.bytes.length < pathMax

def Files.stat (files : Files) (path : CString) : Option Stat :=
  (files.version path).map FileVersion.stat

def Files.contents (files : Files) (path : CString) : Option Bytes :=
  (files.version path).map FileVersion.contents

/-- The files after the one at this path has been replaced, or created. -/
def Files.replace (files : Files) (path : CString) (v : FileVersion)
    (hpath : path.bytes.length < pathMax) : Files where
  version other := if other = path then some v else files.version other
  short := by
    intro other hother
    by_cases heq : other = path
    · rw [heq]
      exact hpath
    · rw [if_neg heq] at hother
      exact files.short other hother

theorem Files.replace_version {files : Files} {path other : CString} {v w : FileVersion}
    (hpath : path.bytes.length < pathMax)
    (h : (files.replace path v hpath).version other = some w) :
    (other = path ∧ w = v) ∨ (other ≠ path ∧ files.version other = some w) := by
  by_cases heq : other = path
  · exact Or.inl ⟨heq, (Option.some.inj ((if_pos heq).symm.trans h)).symm⟩
  · exact Or.inr ⟨heq, (if_neg heq).symm.trans h⟩

def Files.empty : Files where
  version _ := none
  short := by
    intro path hpath
    cases hpath

/-- The loaded store, the store to save and the suites read so far. -/
structure ReadState where
  store : CacheStore
  saveStore : CacheStore
  suites : List TestSuite
deriving DecidableEq

def lookupSuite (store : CacheStore) (filename : CString) (st : Option Stat)
    (contents : Option Bytes) : Except Halt (Option TestSuite × CacheStore) :=
  match cacheLookup store filename st contents with
  | .ok found => .ok found
  | .error _ => .error .undefined

/-- The suite that was found, or what the compiler makes of the file. -/
def orCompile (found : Option TestSuite) (filename : CString) (contents : Option Bytes) :
    Except Halt TestSuite :=
  match found with
  | some suite => .ok suite
  | none => compileTestSuite filename contents

/-- One round of the loop of `read_suites`. -/
def readSource (files : Files) (useCache : Bool) (state : ReadState) (filename : CString) :
    Except Halt ReadState := do
  let (found, store) ←
    if useCache then lookupSuite state.store filename (files.stat filename) (files.contents filename)
    else .ok (none, state.store)
  let suite ← orCompile found filename (files.contents filename)
  let saveStore :=
    if useCache then
      cacheUpdate state.saveStore filename (files.stat filename) (files.contents filename) suite
    else state.saveStore
  return ⟨store, saveStore, state.suites ++ [suite]⟩

/-- The suites of the sources in order, and the store to save if the cache is used. -/
def readSuites (files : Files) (sources : List CString) (noCache : Bool)
    (cacheFile : Option Bytes) : Except Halt (List TestSuite × Option CacheStore) := do
  let useCache := !noCache
  let store := if useCache then cacheLoad cacheFile else .empty
  let state ← sources.foldlM (readSource files useCache) ⟨store, .empty, []⟩
  return (state.suites, if useCache then some state.saveStore else none)

/-- A run of the program, with the files it sees. `saves` says whether it gets to write the
cache file: it may end earlier, in a fatal error of a test, or fail to open the file. -/
structure Run where
  files : Files
  sources : List CString
  noCache : Bool
  clearCache : Bool
  saves : Bool

/-- The cache file `read_suites` finds: `--clear-cache` has removed it. -/
def Run.found (run : Run) (cacheFile : Option Bytes) : Option Bytes :=
  if run.clearCache then none else cacheFile

def Run.suites (run : Run) (cacheFile : Option Bytes) : Except Halt (List TestSuite × Option CacheStore) :=
  readSuites run.files run.sources run.noCache (run.found cacheFile)

/-- The cache file after a run. -/
def Run.leaves (run : Run) (cacheFile : Option Bytes) : Option Bytes :=
  match run.suites cacheFile with
  | .ok (_, some store) => if run.saves then some (savedFile store) else run.found cacheFile
  | _ => run.found cacheFile

/-- The cache file after a history of runs in a directory that had none. -/
def cacheFileAfter (history : List Run) : Option Bytes :=
  history.foldl (fun cacheFile run => run.leaves cacheFile) none

end JCUnit
