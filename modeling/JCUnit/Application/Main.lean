import JCUnit.Application.Options
import JCUnit.Application.CachedPath
import JCUnit.Foundation.Projection
import JCUnit.Suites.Presentation

/-!
# The whole program

`main` from its arguments to its exit code, over the session of its tests and the cache file. A
run of it that gets to its suites is one of the runs whose histories the cache is judged by.
-/

namespace JCUnit

open StateError Projection

/-- What a run of the program finds: the files below the places it searches and what they contain,
the value of `JCUNIT_NO_CACHE`, whether `atexit` works and the cache file can be opened to be
written, what the system answers while the tests run, which may depend on the value of
`JCUNIT_NO_CACHE` that the programs under test inherit, and what kind of file stdout is. -/
structure Machine where
  fs : FileSystem
  files : Files
  envNoCache : Option CString
  atexitRegisters : Bool
  opensCacheFile : Bool
  host : Option CString → Nat → Bytes → Host
  buffering : Buffering
  elapsedMs : UInt32

/-- `JCUNIT_NO_CACHE` behind the `putenv` of `main`. -/
def Machine.putenvNoCache (machine : Machine) (context : ApplicationContext) : Option CString :=
  if context.has .noCache then some ⟨ascii "1", by decide⟩ else machine.envNoCache

/-- `diff_use_colors` and `no_summary` are set from the options. -/
def Machine.surroundings (machine : Machine) (context : ApplicationContext) : Surroundings where
  host := machine.host (machine.putenvNoCache context)
  buffering := machine.buffering
  useColors := context.has .useColors
  noSummary := context.has .noSummary
  elapsedMs := machine.elapsedMs

structure ProgramState where
  session : TestSession
  cacheFile : Option Bytes
deriving DecidableEq

abbrev ProgramM := EStateM Halt ProgramState

def ProgramState.withSession (session : TestSession) (state : ProgramState) : ProgramState :=
  { state with session }

def onSession {α : Type} (x : TestSessionM α) : ProgramM α :=
  lifted ProgramState.session ProgramState.withSession x

/-- A result that is not an error of the C program. -/
def orStop {α : Type} : Except Halt α → ProgramM α
  | .ok a => pure a
  | .error halt => throw halt

/-- `exit`, which writes out what stdout still holds. -/
def exitWith (code : Nat) : ProgramM Nat := do
  onSession (modify fun s => { s with out := s.out.fflush })
  return code

def programName : Bytes := ascii "jcunit"

def jcunitVersion : Bytes := ascii "1.4.0"

def helpText (name : Bytes) : Bytes :=
  ascii "Usage: " ++ name ++ ascii " [options] path [paths...]\n\n\n" ++
    ascii "OPTIONS\n" ++
    ascii "\t--run-mode=(detail|passthrough) default: passthrough\n\t    " ++
    ascii "The mode of showing the results of testing.\n\n" ++
    ascii "\t--help\n\t    Show this message.\n\n" ++
    ascii "\t--colors\n\t    Enable colored diff output.\n\n" ++
    ascii "\t--version\n\t    Show version of this program.\n\n" ++
    ascii "\t--no-cache\n\t    Disable cache for parsing and assembling phases.\n\n" ++
    ascii "\t--clear-cache\n\t    Clear the cache file before running.\n\n" ++
    ascii "\t--no-summary\n\t    Suppress the summary output after tests.\n\n"

def showHelp (env : Surroundings) (name : Bytes) : TestSessionM Unit :=
  fprintf env (helpText name)

/-- The process is the owner of the cache in `main`; only a child process is not. -/
def saveAndFreeCache (machine : Machine) (store : Option CacheStore) : ProgramM Unit :=
  match store with
  | none => return ()
  | some store =>
      if machine.opensCacheFile then modify fun state => { state with cacheFile := some (savedFile store) }
      else return ()

/-- `remove(CACHE_FILENAME)`, if the option is given. -/
def clearCache (context : ApplicationContext) : ProgramM Unit :=
  if context.has .clearCache then modify fun state => { state with cacheFile := none }
  else return ()

/-- `main` from the suites it has read on. -/
def mainTests (machine : Machine) (context : ApplicationContext) (suites : List TestSuite)
    (store : Option CacheStore) : ProgramM Nat := do
  let env := machine.surroundings context
  if getTotalTestsCount suites = 0 then
    saveAndFreeCache machine store
    onSession (fprintf env (ascii "No tests executed!\n"))
    exitWith 0
  else
    onSession (runSuites env suites context.runMode)
    saveAndFreeCache machine store
    let state ← get
    let results := state.session.results
    onSession (modify fun s => { s with out := s.out.fflush })
    exitWith (if results.errorCount > 0 ∨ results.failureCount > 0 then 2 else 0)

/-- `main` from its sources to the suites. -/
def mainSources (machine : Machine) (context : ApplicationContext) (sources : List CString) :
    ProgramM Nat := do
  if sources = [] then
    onSession (fprintf (machine.surroundings context) (ascii "No sources found!\n"))
    exitWith 0
  else
    let state ← get
    let (suites, store) ←
      orStop (readSuites machine.files sources (context.has .noCache) state.cacheFile)
    mainTests machine context suites store

/-- `main` behind `parse_options`. -/
def mainOptions (machine : Machine) (args : List CString) (context : ApplicationContext) :
    ProgramM Nat := do
  let env := machine.surroundings context
  if context.has .showHelp then
    onSession (showHelp env programName)
    exitWith 0
  else if context.has .showVersion then
    onSession (fprintf env (programName ++ ascii " version " ++ jcunitVersion ++ [newline]))
    exitWith 0
  else
    clearCache context
    if !machine.atexitRegisters then throw (fatalError (ascii "Can't register atexit handler!"))
    else
      let sources ← orStop (fetchSources machine.fs args)
      mainSources machine context sources

/-- `main` over the arguments behind the program's name. -/
def main (machine : Machine) (args : List CString) : ProgramM Nat := do
  let context ← orStop (parseOptions machine.envNoCache args)
  mainOptions machine args context

section Steps

variable {α β : Type} {machine : Machine} {state : ProgramState}

/-- A part of the session goes on in the state it leaves. -/
theorem onSession_bind_of_ok {x : TestSessionM α} {f : α → ProgramM β} {a : α} {s : TestSession}
    (h : x state.session = .ok a s) :
    (onSession x >>= f) state = f a (state.withSession s) := by
  apply bind_of_ok
  unfold onSession lifted
  rw [h]

theorem onSession_bind_of_error {x : TestSessionM α} {f : α → ProgramM β} {halt : Halt}
    {s : TestSession} (h : x state.session = .error halt s) :
    (onSession x >>= f) state = .error halt (state.withSession s) := by
  apply bind_of_error
  unfold onSession lifted
  rw [h]

/-- The session when the process has exited. -/
def TestSession.exited (s : TestSession) : TestSession := s.withOut s.out.fflush

end Steps

/-- What `main` is going to do: stop in an error, show a text, or run the tests of its suites and
save the store. -/
inductive Plan
  | stop (halt : Halt) (cacheFile : Option Bytes)
  | display (text : Bytes) (cacheFile : Option Bytes)
  | test (context : ApplicationContext) (suites : List TestSuite) (store : Option CacheStore)
      (cacheFile : Option Bytes)

/-- The plan for these sources. -/
def planSources (machine : Machine) (context : ApplicationContext) (sources : List CString)
    (found : Option Bytes) : Plan :=
  if sources = [] then .display (ascii "No sources found!\n") found
  else
    match readSuites machine.files sources (context.has .noCache) found with
    | .error halt => .stop halt found
    | .ok (suites, store) => .test context suites store found

/-- The plan with these options. -/
def planOptions (machine : Machine) (args : List CString) (context : ApplicationContext)
    (cacheFile : Option Bytes) : Plan :=
  if context.has .showHelp then .display (helpText programName) cacheFile
  else if context.has .showVersion then
    .display (programName ++ ascii " version " ++ jcunitVersion ++ [newline]) cacheFile
  else
    let found := if context.has .clearCache then none else cacheFile
    if !machine.atexitRegisters then
      .stop (fatalError (ascii "Can't register atexit handler!")) found
    else
      match fetchSources machine.fs args with
      | .error halt => .stop halt found
      | .ok sources => planSources machine context sources found

/-- The plan for the arguments and the cache file that is there. -/
def plan (machine : Machine) (args : List CString) (cacheFile : Option Bytes) : Plan :=
  match parseOptions machine.envNoCache args with
  | .error halt => .stop halt cacheFile
  | .ok context => planOptions machine args context cacheFile

/-- The cache file when the store has been saved. -/
def savedCacheFile (machine : Machine) (store : Option CacheStore) (found : Option Bytes) :
    Option Bytes :=
  match store with
  | none => found
  | some store => if machine.opensCacheFile then some (savedFile store) else found

/-- What becomes of a plan. The store is saved behind the last test, if it comes to that. -/
def Plan.carryOut (machine : Machine) : Plan → EStateM.Result Halt ProgramState Nat
  | .stop halt cacheFile => .error halt ⟨.start, cacheFile⟩
  | .display text cacheFile =>
      .ok 0 ⟨(TestSession.start.withOut (Stdout.empty.print machine.buffering text)).exited, cacheFile⟩
  | .test context suites store found =>
      match mainRun (machine.surroundings context) suites context.runMode .start with
      | .ok code s => .ok code ⟨s.exited, savedCacheFile machine store found⟩
      | .error halt s => .error halt ⟨s, found⟩

section Plans

variable {machine : Machine} {context : ApplicationContext} {session : TestSession}
  {cacheFile : Option Bytes}

theorem saveAndFreeCache_eq (store : Option CacheStore) :
    saveAndFreeCache machine store ⟨session, cacheFile⟩ =
      .ok () ⟨session, savedCacheFile machine store cacheFile⟩ := by
  cases store with
  | none => rfl
  | some store =>
      unfold saveAndFreeCache savedCacheFile
      cases machine.opensCacheFile <;> rfl

theorem clearCache_eq : clearCache context ⟨session, cacheFile⟩ =
    .ok () ⟨session, if context.has .clearCache then none else cacheFile⟩ := by
  unfold clearCache
  split <;> rfl

theorem mainTests_eq (suites : List TestSuite) (store : Option CacheStore) :
    mainTests machine context suites store ⟨.start, cacheFile⟩ =
      (Plan.test context suites store cacheFile).carryOut machine := by
  unfold mainTests
  dsimp only [Plan.carryOut]
  by_cases hnone : getTotalTestsCount suites = 0
  · have hmain : mainRun (machine.surroundings context) suites context.runMode = do
        fprintf (machine.surroundings context) (ascii "No tests executed!\n")
        return 0 := if_pos hnone
    rw [if_pos hnone, bind_of_ok (saveAndFreeCache_eq store), hmain]
    rfl
  · rw [if_neg hnone, mainRun_eq _ hnone]
    cases hrun : runSuites (machine.surroundings context) suites context.runMode .start with
    | ok u s =>
        rw [onSession_bind_of_ok hrun, bind_of_ok (saveAndFreeCache_eq store), bind_of_ok hrun]
        rfl
    | error halt s =>
        rw [onSession_bind_of_error hrun, bind_of_error hrun]
        rfl

theorem mainSources_eq (sources : List CString) :
    mainSources machine context sources ⟨.start, cacheFile⟩ =
      (planSources machine context sources cacheFile).carryOut machine := by
  unfold mainSources planSources
  by_cases hnone : sources = []
  · rw [if_pos hnone, if_pos hnone]
    rfl
  · rw [if_neg hnone, if_neg hnone]
    change (orStop (readSuites machine.files sources (context.has .noCache) cacheFile) >>= _)
      ⟨.start, cacheFile⟩ = _
    cases readSuites machine.files sources (context.has .noCache) cacheFile with
    | error halt => rfl
    | ok read => exact mainTests_eq read.1 read.2

theorem mainOptions_eq (args : List CString) :
    mainOptions machine args context ⟨.start, cacheFile⟩ =
      (planOptions machine args context cacheFile).carryOut machine := by
  unfold mainOptions planOptions
  cases context.has .showHelp with
  | true => rfl
  | false =>
      cases context.has .showVersion with
      | true => rfl
      | false =>
          simp only [Bool.false_eq_true, if_false]
          rw [bind_of_ok clearCache_eq]
          cases machine.atexitRegisters with
          | false => rfl
          | true =>
              cases fetchSources machine.fs args with
              | error halt => rfl
              | ok sources => exact mainSources_eq sources

/-- `main` does what is planned. -/
theorem main_eq (machine : Machine) (args : List CString) (cacheFile : Option Bytes) :
    main machine args ⟨.start, cacheFile⟩ = (plan machine args cacheFile).carryOut machine := by
  unfold main plan
  cases parseOptions machine.envNoCache args with
  | error halt => rfl
  | ok context => exact mainOptions_eq args

end Plans

/-- Why nothing comes of a plan. -/
def Hindered (machine : Machine) (args : List CString) (found : Option Bytes) (halt : Halt) : Prop :=
  parseOptions machine.envNoCache args = .error halt ∨
  halt = fatalError (ascii "Can't register atexit handler!") ∨
  fetchSources machine.fs args = .error halt ∨
  ∃ sources noCache, fetchSources machine.fs args = .ok sources ∧
    readSuites machine.files sources noCache found = .error halt

/-- Tests are planned only when all sources have been read. -/
theorem plan_cases (machine : Machine) (args : List CString) (cacheFile : Option Bytes) :
    ∃ found, (found = cacheFile ∨ found = none) ∧
      ((∃ halt, plan machine args cacheFile = .stop halt found ∧
          Hindered machine args found halt) ∨
        (∃ text, plan machine args cacheFile = .display text found) ∨
        ∃ context sources suites store,
          plan machine args cacheFile = .test context suites store found ∧
          parseOptions machine.envNoCache args = .ok context ∧
          fetchSources machine.fs args = .ok sources ∧
          readSuites machine.files sources (context.has .noCache) found = .ok (suites, store)) := by
  unfold plan
  cases hparse : parseOptions machine.envNoCache args with
  | error halt => exact ⟨cacheFile, Or.inl rfl, Or.inl ⟨halt, rfl, Or.inl hparse⟩⟩
  | ok context =>
      dsimp only
      unfold planOptions
      split
      · exact ⟨cacheFile, Or.inl rfl, Or.inr (Or.inl ⟨_, rfl⟩)⟩
      split
      · exact ⟨cacheFile, Or.inl rfl, Or.inr (Or.inl ⟨_, rfl⟩)⟩
      dsimp only
      generalize hfound : (if context.has .clearCache then none else cacheFile) = found
      have hfrom : found = cacheFile ∨ found = none := by
        rw [← hfound]
        split
        · exact Or.inr rfl
        · exact Or.inl rfl
      refine ⟨found, hfrom, ?_⟩
      split
      · exact Or.inl ⟨_, rfl, Or.inr (Or.inl rfl)⟩
      cases hsources : fetchSources machine.fs args with
      | error halt => exact Or.inl ⟨halt, rfl, Or.inr (Or.inr (Or.inl hsources))⟩
      | ok sources =>
          dsimp only
          unfold planSources
          split
          · exact Or.inr (Or.inl ⟨_, rfl⟩)
          cases hread : readSuites machine.files sources (context.has .noCache) found with
          | error halt =>
              exact Or.inl ⟨halt, rfl, Or.inr (Or.inr (Or.inr ⟨sources, _, hsources, hread⟩))⟩
          | ok read =>
              exact Or.inr (Or.inr ⟨context, sources, read.1, read.2, rfl, rfl, rfl, hread⟩)

end JCUnit
