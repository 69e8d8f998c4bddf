import JCUnit.Suites.RunSuites

/-!
# Every test is run and counted once

What one visit does, what it keeps of the iterator, the results and the calls, and from
that what a whole session leaves.
-/

namespace JCUnit

open StateError Loops

variable {env : Surroundings} {s s' : TestSession}

section OneVisit

theorem orHalt_eq_ok {α : Type} {x : Except Halt α} {a : α} (h : orHalt x s = .ok a s') :
    x = .ok a ∧ s' = s := by
  cases x with
  | ok b =>
      obtain ⟨rfl, rfl⟩ := pure_eq_ok.mp h
      exact ⟨rfl, rfl⟩
  | error halt => cases h

theorem orHalt_eq_error {α : Type} {x : Except Halt α} {halt : Halt}
    (h : orHalt x s = .error halt s') : x = .error halt := by
  cases x with
  | ok a => cases h
  | error halt' =>
      cases h
      rfl

/-- The call is one of `test_run` with these answers, and what is captured is what they give. -/
structure TestCall.Answered (call : TestCall) (host : Host) : Prop where
  run : testRun host call.test.test [] = .ok call.result call.events
  captured : ∀ captured ∈ call.captured,
    captured = ⟨host.child.output .stdout, host.child.output .stderr⟩

theorem callTestRun_eq_ok {test : SuiteTest} {result : TestResult}
    (h : callTestRun env test s = .ok result s') :
    ∃ storage call, call.Answered (env.host s.calls.length s.out.unflushed) ∧ call.test = test ∧
      call.unflushed = s.out.unflushed ∧ call.result = result ∧
      s' = { s with storage, calls := s.calls ++ [call] } := by
  unfold callTestRun at h
  dsimp only at h
  split at h
  · rename_i state hrun
    cases h
    refine ⟨state.storage, ⟨test, s.out.unflushed, state.events, state.captured, result⟩, ?_, rfl,
      rfl, rfl, rfl⟩
    constructor
    · exact (Static.projects_testRun _ _).eq_ok hrun
    · have hnone : Static.CapturedFrom (env.host s.calls.length s.out.unflushed)
          ⟨s.storage, [], none⟩ := by
        intro captured hcaptured
        cases hcaptured
      exact (Static.keeps_testRun _ _ _ hnone hrun).1
  · cases h

theorem callTestRun_eq_error {test : SuiteTest} {halt : Halt}
    (h : callTestRun env test s = .error halt s') :
    ∃ storage events,
      testRun (env.host s.calls.length s.out.unflushed) test.test [] = .error halt events ∧
        s' = { s with storage } := by
  unfold callTestRun at h
  dsimp only at h
  split at h
  · cases h
  · rename_i state hrun
    cases h
    exact ⟨state.storage, state.events, (Static.projects_testRun _ _).eq_error hrun, rfl⟩

/-- A visit of the test at the cursor, which is called, recorded at the cursor and counted. -/
structure Visit (env : Surroundings) (s s' : TestSession) (record : TestRecord) : Prop where
  unfinished : s.iterator.finished = false
  visited : ∃ call storage results, s.iterator.current = .ok call.test ∧
    call.Answered (env.host s.calls.length s.out.unflushed) ∧
    call.unflushed = s.out.unflushed ∧
    record = .of call.test call.result ∧
    addTestResultToTestSuiteResult s.results record s.iterator.cursor = .ok results ∧
    s' = { s with
      iterator := s.iterator.next
      results
      storage
      calls := s.calls ++ [call] }

theorem testIteratorVisit_eq_ok {found : Option TestRecord}
    (h : testIteratorVisit env s = .ok found s') :
    (s.iterator.finished = true ∧ found = none ∧ s' = s) ∨
      ∃ record, found = some record ∧ Visit env s s' record := by
  obtain ⟨s₁, s₂, hget, h⟩ := bind_eq_ok h
  cases hget
  split at h
  · rename_i hfinished
    obtain ⟨rfl, rfl⟩ := pure_eq_ok.mp h
    exact Or.inl ⟨hfinished, rfl, rfl⟩
  · rename_i hunfinished
    obtain ⟨test, s₂, htest, h⟩ := bind_eq_ok h
    obtain ⟨hcurrent, rfl⟩ := orHalt_eq_ok htest
    obtain ⟨record, s₃, hrecord, h⟩ := bind_eq_ok h
    obtain ⟨result, s₄, hcall, hrecord⟩ := bind_eq_ok hrecord
    obtain ⟨storage, call, hanswered, rfl, hunflushed, rfl, rfl⟩ := callTestRun_eq_ok hcall
    obtain ⟨_, _, hget, hrecord⟩ := bind_eq_ok hrecord
    cases hget
    obtain ⟨results, s₅, hadd, hrecord⟩ := bind_eq_ok hrecord
    obtain ⟨hresults, rfl⟩ := orHalt_eq_ok hadd
    obtain ⟨_, _, hset, hrecord⟩ := bind_eq_ok hrecord
    cases hset
    obtain ⟨rfl, rfl⟩ := pure_eq_ok.mp hrecord
    obtain ⟨_, _, hnext, h⟩ := bind_eq_ok h
    cases hnext
    obtain ⟨rfl, rfl⟩ := pure_eq_ok.mp h
    refine Or.inr ⟨_, rfl, Bool.eq_false_iff.mpr hunfinished, ?_⟩
    exact ⟨call, storage, results, hcurrent, hanswered, hunflushed, rfl, hresults, rfl⟩

end OneVisit

section Rounds

/-- The session but for what is printed. -/
def TestSession.withOut (s : TestSession) (out : Stdout) : TestSession := { s with out }

def SameButOut (s s' : TestSession) : Prop := ∃ out, s' = s.withOut out

theorem SameButOut.refl (s : TestSession) : SameButOut s s := ⟨s.out, rfl⟩

theorem keeps_fprintf (text : Bytes) : Keeps (SameButOut s) (fprintf env text) fun _ => True := by
  rintro _ _ _ ⟨out, rfl⟩ h
  cases h
  exact ⟨⟨_, rfl⟩, trivial⟩

theorem keeps_orHalt {α : Type} (x : Except Halt α) :
    Keeps (SameButOut s) (orHalt x) fun _ => True := by
  cases x with
  | ok a => exact Keeps.pure trivial
  | error halt => exact Keeps.throw halt

theorem keeps_printSuiteHeading (previous : Option Nat) (test : SuiteTest) :
    Keeps (SameButOut s) (printSuiteHeading env previous test) fun _ => True := by
  unfold printSuiteHeading
  split
  · exact keeps_fprintf _
  · exact Keeps.pure trivial

theorem keeps_showInDetail (suite : Nat) (record : TestRecord) :
    Keeps (SameButOut s) (showInDetail env suite record) fun _ => True := by
  apply Keeps.bind (keeps_orHalt _)
  intro text _
  apply Keeps.bind (keeps_fprintf text)
  intro _ _
  apply Keeps.bind Keeps.get
  intro t _
  apply Keeps.bind (keeps_orHalt _)
  intro nextTest _
  split
  · exact keeps_fprintf _
  · exact Keeps.pure trivial

theorem keeps_showInPassthrough (inLine : UInt32) (record : TestRecord) :
    Keeps (SameButOut s) (showInPassthrough env inLine record) fun _ => True := by
  apply Keeps.bind (keeps_fprintf _)
  intro _ _
  dsimp only
  split
  · apply Keeps.bind Keeps.get
    intro t _
    apply Keeps.bind (keeps_fprintf _)
    intro _ _
    exact Keeps.pure trivial
  · exact Keeps.pure trivial

/-- A round either breaks with all tests visited, or visits one and prints before and after. -/
def VisitsOnce {β : Type} (env : Surroundings) (round : β → TestSessionM (Option β)) : Prop :=
  ∀ b s next s', round b s = .ok next s' →
    (s.iterator.finished = true ∧ next = none ∧ s' = s) ∨
      ∃ before s₁ record, next.isSome = true ∧ Visit env (s.withOut before) s₁ record ∧
        SameButOut s₁ s'

theorem detailRound_visitsOnce : VisitsOnce env (detailRound env) := by
  intro b s next s' h
  obtain ⟨_, _, hget, h₁⟩ := bind_eq_ok h
  cases hget
  split at h₁
  · rename_i hfinished
    obtain ⟨rfl, rfl⟩ := pure_eq_ok.mp h₁
    exact Or.inl ⟨hfinished, rfl, rfl⟩
  · rename_i hunfinished
    obtain ⟨current, s₁, hcurrent, h₂⟩ := bind_eq_ok h₁
    obtain ⟨-, rfl⟩ := orHalt_eq_ok hcurrent
    obtain ⟨_, s₂, hheading, h₃⟩ := bind_eq_ok h₂
    obtain ⟨⟨before, rfl⟩, -⟩ := keeps_printSuiteHeading b current _ _ _ (.refl s₁) hheading
    obtain ⟨found, s₃, hvisit, h₄⟩ := bind_eq_ok h₃
    rcases testIteratorVisit_eq_ok hvisit with ⟨hfinished, -, -⟩ | ⟨record, rfl, hvisited⟩
    · exact absurd hfinished hunfinished
    · obtain ⟨_, s₄, hshow, h₅⟩ := bind_eq_ok h₄
      obtain ⟨hsame, -⟩ := keeps_showInDetail current.suite record _ _ _ (.refl s₃) hshow
      obtain ⟨rfl, rfl⟩ := pure_eq_ok.mp h₅
      exact Or.inr ⟨before, s₃, record, rfl, hvisited, hsame⟩

theorem passthroughRound_visitsOnce : VisitsOnce env (passthroughRound env) := by
  intro b s next s' h
  obtain ⟨_, _, hget, h₁⟩ := bind_eq_ok h
  cases hget
  split at h₁
  · rename_i hfinished
    obtain ⟨rfl, rfl⟩ := pure_eq_ok.mp h₁
    exact Or.inl ⟨hfinished, rfl, rfl⟩
  · rename_i hunfinished
    obtain ⟨found, s₁, hvisit, h₂⟩ := bind_eq_ok h₁
    rcases testIteratorVisit_eq_ok hvisit with ⟨hfinished, -, -⟩ | ⟨record, rfl, hvisited⟩
    · exact absurd hfinished hunfinished
    · obtain ⟨inLine, s₂, hshow, h₃⟩ := bind_eq_ok h₂
      obtain ⟨hsame, -⟩ := keeps_showInPassthrough b record _ _ _ (.refl s₁) hshow
      obtain ⟨rfl, rfl⟩ := pure_eq_ok.mp h₃
      exact Or.inr ⟨s.out, s₁, record, rfl, hvisited, hsame⟩

end Rounds

section Invariant

/-- The entry of a call in the array of results. -/
def TestCall.record (call : TestCall) : TestRecord := .of call.test call.result

/-- The number of calls with a result of this status. -/
def countStatus (calls : List TestCall) (status : TestResultStatus) : Nat :=
  calls.countP fun call => call.result.status = status

/-- Every call has a status, and only one. -/
theorem sum_countStatus (calls : List TestCall) :
    countStatus calls .pass + countStatus calls .skipped + countStatus calls .failure +
      countStatus calls .incomplete + countStatus calls .error = calls.length := by
  unfold countStatus
  induction calls with
  | nil => rfl
  | cons call calls ih =>
      simp only [List.countP_cons, List.length_cons]
      cases call.result.status <;> simp <;> omega

theorem countStatus_append (calls : List TestCall) (call : TestCall) (status : TestResultStatus) :
    countStatus (calls ++ [call]) status =
      if call.result.status = status then countStatus calls status + 1
      else countStatus calls status := by
  unfold countStatus
  by_cases hstatus : call.result.status = status <;> simp [List.countP_append, hstatus]

theorem countStatus_le (calls : List TestCall) (status : TestResultStatus) :
    countStatus calls status ≤ calls.length :=
  List.countP_le_length

/-- The calls are the tests up to the cursor, each with the answer of `test_run`; the results
below the cursor and the counters are those of the calls. -/
structure Visited (env : Surroundings) (tests : List SuiteTest) (s : TestSession) : Prop where
  array : s.iterator.tests = tests
  testsCount : s.iterator.testsCount.toNat = tests.length
  cursor : s.iterator.cursor.toNat = s.calls.length
  calls : s.calls.map TestCall.test = tests.take s.calls.length
  answered : ∀ (i : Nat) call, s.calls[i]? = some call →
    call.Answered (env.host i call.unflushed)
  results : s.results.results = s.calls.map (fun call => some call.record) ++
    List.replicate (tests.length - s.calls.length) none
  resultsCount : s.results.resultsCount.toNat = tests.length
  counters : ∀ status, (s.results.counter status).toNat = countStatus s.calls status

variable {tests : List SuiteTest} {record : TestRecord}

theorem Visited.withOut (h : Visited env tests s) (out : Stdout) :
    Visited env tests (s.withOut out) :=
  ⟨h.array, h.testsCount, h.cursor, h.calls, h.answered, h.results, h.resultsCount, h.counters⟩

theorem Visited.of_sameButOut (h : Visited env tests s) (hsame : SameButOut s s') :
    Visited env tests s' ∧ s'.calls = s.calls := by
  obtain ⟨out, rfl⟩ := hsame
  exact ⟨h.withOut out, rfl⟩

theorem Visited.finished_iff (h : Visited env tests s) :
    s.iterator.finished = true ↔ tests.length ≤ s.calls.length := by
  rw [TestIterator.finished, decide_eq_true_iff, ge_iff_le, UInt32.le_iff_toNat_le, h.testsCount,
    h.cursor]

theorem Visited.length_le (h : Visited env tests s) : s.calls.length ≤ tests.length := by
  have hlength := congrArg List.length h.calls
  rw [List.length_map, List.length_take] at hlength
  omega

/-- Recording a result at the first free place. -/
theorem set_first_free {α : Type} (done : List α) (a : α) (f : α → Option TestRecord) {n : Nat}
    (hn : done.length < n) :
    (done.map f ++ List.replicate (n - done.length) none).set done.length (f a) =
      (done ++ [a]).map f ++ List.replicate (n - (done ++ [a]).length) none := by
  obtain ⟨k, rfl⟩ := Nat.exists_eq_add_of_lt hn
  have hbefore : done.length + k + 1 - done.length = k + 1 := by omega
  have hafter : done.length + k + 1 - (done.length + 1) = k := by omega
  rw [List.set_append_right _ _ (by rw [List.length_map]), List.length_map, Nat.sub_self, hbefore,
    List.replicate_succ, List.set_cons_zero, List.map_append, List.length_append,
    List.length_singleton, hafter, List.append_assoc]
  rfl

/-- What holds of every entry at its place also holds after one more at the end. -/
theorem forall_getElem?_concat {α : Type} {P : Nat → α → Prop} {done : List α} {a : α}
    (hdone : ∀ (i : Nat) b, done[i]? = some b → P i b) (ha : P done.length a) (i : Nat) (b : α)
    (hb : (done ++ [a])[i]? = some b) : P i b := by
  rcases Nat.lt_trichotomy i done.length with hlt | rfl | hgt
  · rw [List.getElem?_append_left hlt] at hb
    exact hdone i b hb
  · rw [List.getElem?_concat_length] at hb
    cases hb
    exact ha
  · rw [List.getElem?_eq_none] at hb
    · cases hb
    · rw [List.length_append]
      exact hgt

/-- A counter below the range of `unsigned int` counts one more call. -/
theorem toNat_counter_append {counter : UInt32} {calls : List TestCall}
    {status : TestResultStatus} (hcounter : counter.toNat = countStatus calls status)
    (hroom : calls.length + 1 < 2 ^ 32) (call : TestCall) :
    (if call.result.status = status then counter + 1 else counter).toNat =
      countStatus (calls ++ [call]) status := by
  have hone : (1 : UInt32).toNat = 1 := rfl
  have hle := countStatus_le calls status
  rw [countStatus_append, ← hcounter]
  by_cases hstatus : call.result.status = status
  · rw [if_pos hstatus, if_pos hstatus, UInt32.toNat_add, hone]
    exact Nat.mod_eq_of_lt (by omega)
  · rw [if_neg hstatus, if_neg hstatus]

/-- The test under the cursor is the first one that has not been called. -/
theorem Visited.current_eq (h : Visited env tests s) {test : SuiteTest}
    (hcurrent : s.iterator.current = .ok test) : tests[s.calls.length]? = some test := by
  rw [TestIterator.current, h.array, h.cursor] at hcurrent
  split at hcurrent
  · rename_i hfound
    cases hcurrent
    exact hfound
  · cases hcurrent

/-- A visit carries the invariant on and makes one call. -/
theorem Visited.visit (htotal : tests.length < 2 ^ 32) (h : Visited env tests s)
    (hvisit : Visit env s s' record) :
    Visited env tests s' ∧ s'.calls.length = s.calls.length + 1 := by
  obtain ⟨hunfinished, newCall, storage, results, hcurrent, hanswered, hunflushed, rfl, hadd, rfl⟩ :=
    hvisit
  have hroom : s.calls.length < tests.length := by
    rw [← not_le, ← h.finished_iff, hunfinished]
    exact Bool.false_ne_true
  have htest := h.current_eq hcurrent
  obtain ⟨hresults, hcount, hcounter⟩ := addTestResult_eq_ok hadd
  refine ⟨⟨h.array, h.testsCount, ?_, ?_, ?_, ?_, ?_, ?_⟩, List.length_append⟩
  · have hone : (1 : UInt32).toNat = 1 := rfl
    change (s.iterator.cursor + 1).toNat = (s.calls ++ [_]).length
    rw [UInt32.toNat_add, hone, h.cursor, List.length_append, List.length_singleton]
    omega
  · change (s.calls ++ [_]).map _ = tests.take (s.calls ++ [_]).length
    rw [List.map_append, h.calls, List.length_append, List.length_singleton, List.take_add_one,
      htest]
    rfl
  · apply forall_getElem?_concat h.answered
    rw [hunflushed]
    exact hanswered
  · change results.results = _
    rw [hresults, h.results, h.cursor]
    exact set_first_free s.calls newCall (fun call => some call.record) hroom
  · change results.resultsCount.toNat = _
    rw [hcount]
    exact h.resultsCount
  · intro status
    change (results.counter status).toNat = countStatus (s.calls ++ [_]) status
    rw [hcounter]
    exact toNat_counter_append (h.counters status) (by omega) newCall

/-- The session has ended in the call of `test_run` for the first test that has no result. -/
def EndedInTestRun (env : Surroundings) (tests : List ProgramRunnerTest) (halt : Halt)
    (s : TestSession) : Prop :=
  ∃ test events, tests[s.calls.length]? = some test ∧
    testRun (env.host s.calls.length s.out.unflushed) test [] = .error halt events

end Invariant

section Sessions

variable {tests : List SuiteTest} {β : Type} {body : β → TestSessionM (Option β)} {b b' : β}

theorem Visited.round (hround : VisitsOnce env body) (htotal : tests.length < 2 ^ 32)
    (h : Visited env tests s) (hrun : body b s = .ok (some b') s') :
    Visited env tests s' ∧ s'.calls.length = s.calls.length + 1 := by
  rcases hround b s _ s' hrun with ⟨-, hnone, -⟩ | ⟨before, s₁, record, -, hvisit, hsame⟩
  · cases hnone
  · obtain ⟨hvisited, hcalls⟩ := (h.withOut before).visit htotal hvisit
    obtain ⟨hvisited', hcalls'⟩ := hvisited.of_sameButOut hsame
    refine ⟨hvisited', ?_⟩
    rw [hcalls', hcalls]
    rfl

/-- After `k` rounds there are `k` calls. -/
theorem Visited.rounds (hround : VisitsOnce env body) (htotal : tests.length < 2 ^ 32)
    (h : Visited env tests s) (hcalls : s.calls = []) {k : Nat}
    (hrounds : Rounds body b s k b' s') : Visited env tests s' ∧ s'.calls.length = k := by
  apply hrounds.invariant (I := fun k _ s => Visited env tests s ∧ s.calls.length = k)
  · rw [hcalls]
    exact ⟨h, rfl⟩
  · rintro k b s b' s' ⟨hvisited, rfl⟩ hrun
    exact hvisited.round hround htotal hrun

/-- The loop of a mode ends when every test has been called. -/
theorem Visited.visitAll (hround : VisitsOnce env body) (htotal : tests.length < 2 ^ 32)
    (h : Visited env tests s) (hcalls : s.calls = []) (hrun : visitAll body b s = .ok b' s') :
    Visited env tests s' ∧ s'.calls.length = tests.length := by
  obtain ⟨_, _, hget, hloop⟩ := bind_eq_ok hrun
  cases hget
  obtain ⟨k, t, hrounds, hbreak⟩ := loop_eq_ok hloop
  obtain ⟨hvisited, -⟩ := h.rounds hround htotal hcalls hrounds
  rcases hround b' t none s' hbreak with ⟨hfinished, -, rfl⟩ | ⟨_, _, _, hsome, -⟩
  · exact ⟨hvisited, Nat.le_antisymm hvisited.length_le (hvisited.finished_iff.mp hfinished)⟩
  · cases hsome

/-- Moving the cursor leaves less to visit. -/
theorem remaining_next {iterator : TestIterator} (h : iterator.finished = false) :
    iterator.next.testsCount.toNat - iterator.next.cursor.toNat <
      iterator.testsCount.toNat - iterator.cursor.toNat := by
  have hone : (1 : UInt32).toNat = 1 := rfl
  have hbound := iterator.testsCount.toNat_lt
  have hlt : iterator.cursor.toNat < iterator.testsCount.toNat := by
    rw [← not_le, ← UInt32.le_iff_toNat_le]
    exact of_decide_eq_false h
  change iterator.testsCount.toNat - (iterator.cursor + 1).toNat < _
  rw [UInt32.toNat_add, hone]
  omega

/-- The bound on the rounds is never what ends the loop of a mode. -/
theorem visitAll_bound_irrelevant (hround : VisitsOnce env body) (b : β) (s : TestSession)
    {halt : Halt} {n : Nat} (hn : s.iterator.testsCount.toNat < n) :
    visitAll body b s = loop halt body n b s := by
  rw [JCUnit.visitAll, bind_of_ok (show (get : TestSessionM TestSession) s = .ok s s from rfl)]
  apply loop_bound_irrelevant fun s => s.iterator.testsCount.toNat - s.iterator.cursor.toNat
  · intro b s b' s' hrun
    rcases hround b s _ s' hrun with ⟨-, hnone, -⟩ | ⟨before, s₁, record, -, hvisit, out, rfl⟩
    · cases hnone
    · obtain ⟨hunfinished, _, _, _, -, -, -, -, -, rfl⟩ := hvisit
      exact remaining_next hunfinished
  · omega
  · omega

theorem visited_init {suites : List TestSuite}
    (htotal : (suites.flatMap TestSuite.tests).length < 2 ^ 32) :
    Visited env (testIteratorInitBySuites suites).tests (TestSession.init suites .start) := by
  have hlength : (testIteratorInitBySuites suites).tests.length =
      (suites.flatMap TestSuite.tests).length := by
    rw [← init_tests, List.length_map]
  have hcount := toNat_getTotalTestsCount suites htotal
  rw [← hlength] at hcount
  refine ⟨rfl, hcount, rfl, rfl, ?_, ?_, hcount, ?_⟩
  · intro i call hcall
    cases hcall
  · change List.replicate (getTotalTestsCount suites).toNat none = _
    rw [hcount]
    rfl
  · intro status
    cases status <;> rfl

theorem keeps_visitAll_end {x : TestSessionM Unit}
    (hx : ∀ s, Keeps (SameButOut s) x fun _ => True) (h : Visited env tests s)
    (hcalls : s.calls.length = tests.length) {u : Unit} (hrun : x s = .ok u s') :
    Visited env tests s' ∧ s'.calls.length = tests.length := by
  obtain ⟨hsame, -⟩ := hx s s u s' (.refl s) hrun
  obtain ⟨hvisited, hcalls'⟩ := h.of_sameButOut hsame
  exact ⟨hvisited, by rw [hcalls', hcalls]⟩

theorem runSuitesInDetailMode_visited (htotal : tests.length < 2 ^ 32) (h : Visited env tests s)
    (hcalls : s.calls = []) {u : Unit} (hrun : runSuitesInDetailMode env s = .ok u s') :
    Visited env tests s' ∧ s'.calls.length = tests.length := by
  obtain ⟨_, s₁, hloop, hend⟩ := bind_eq_ok hrun
  obtain ⟨hvisited, hlength⟩ := h.visitAll detailRound_visitsOnce htotal hcalls hloop
  refine keeps_visitAll_end ?_ hvisited hlength hend
  intro s
  apply Keeps.bind Keeps.get
  intro t _
  split
  · exact keeps_fprintf _
  · exact Keeps.pure trivial

theorem runSuitesInPassthroughMode_visited (htotal : tests.length < 2 ^ 32)
    (h : Visited env tests s) (hcalls : s.calls = []) {u : Unit}
    (hrun : runSuitesInPassthroughMode env s = .ok u s') :
    Visited env tests s' ∧ s'.calls.length = tests.length := by
  obtain ⟨inLine, s₁, hloop, hend⟩ := bind_eq_ok hrun
  obtain ⟨hvisited, hlength⟩ := h.visitAll passthroughRound_visitsOnce htotal hcalls hloop
  refine keeps_visitAll_end ?_ hvisited hlength hend
  intro s
  apply Keeps.bind (keeps_fprintf _)
  intro _ _
  apply Keeps.bind Keeps.get
  intro t _
  apply Keeps.bind (keeps_orHalt _)
  intro text _
  apply Keeps.bind (keeps_fprintf text)
  intro _ _
  split
  · exact keeps_fprintf _
  · exact keeps_fprintf _

theorem runSuites_visited {suites : List TestSuite} {runMode : UInt32} {u : Unit}
    (htotal : (suites.flatMap TestSuite.tests).length < 2 ^ 32)
    (hrun : runSuites env suites runMode .start = .ok u s) :
    Visited env (testIteratorInitBySuites suites).tests s ∧
      s.calls.length = (testIteratorInitBySuites suites).tests.length := by
  have hlength : (testIteratorInitBySuites suites).tests.length < 2 ^ 32 := by
    rw [← List.length_map (f := SuiteTest.test), init_tests]
    exact htotal
  have hinit : Visited env _ (TestSession.init suites .start) := visited_init htotal
  obtain ⟨runner, s₁, hrunner, h₁⟩ := bind_eq_ok hrun
  obtain ⟨hmode, rfl⟩ := orHalt_eq_ok hrunner
  obtain ⟨_, s₂, hset, h₂⟩ := bind_eq_ok h₁
  cases hset
  unfold testModeRunner at hmode
  split at hmode
  · cases hmode
    exact runSuitesInDetailMode_visited hlength hinit rfl h₂
  split at hmode
  · cases hmode
    exact runSuitesInPassthroughMode_visited hlength hinit rfl h₂
  · cases hmode

end Sessions

theorem Visited.sum_counters {tests : List SuiteTest} (h : Visited env tests s) :
    s.results.passedCount.toNat + s.results.skippedCount.toNat + s.results.failureCount.toNat +
      s.results.incompleteCount.toNat + s.results.errorCount.toNat = s.calls.length := by
  have hcounters := h.counters
  calc _ = countStatus s.calls .pass + countStatus s.calls .skipped +
        countStatus s.calls .failure + countStatus s.calls .incomplete +
          countStatus s.calls .error := by
        rw [← hcounters .pass, ← hcounters .skipped, ← hcounters .failure,
          ← hcounters .incomplete, ← hcounters .error]
        rfl
    _ = s.calls.length := sum_countStatus s.calls

theorem Visited.tests_eq {suites : List TestSuite}
    (h : Visited env (testIteratorInitBySuites suites).tests s)
    (hall : s.calls.length = (testIteratorInitBySuites suites).tests.length) :
    s.calls.map (fun call => call.test.test) = suites.flatMap TestSuite.tests := by
  have hcalls := h.calls
  rw [hall, List.take_length] at hcalls
  rw [← init_tests, ← hcalls, List.map_map]
  rfl

/-- A counter is positive when a call has its status. -/
theorem Visited.counter_pos_iff {tests : List SuiteTest} (h : Visited env tests s)
    (status : TestResultStatus) :
    s.results.counter status > 0 ↔ ∃ call ∈ s.calls, call.result.status = status := by
  rw [gt_iff_lt, UInt32.lt_iff_toNat_lt, h.counters status, UInt32.toNat_zero, countStatus,
    List.countP_pos_iff]
  simp only [decide_eq_true_iff]

theorem Visited.exitCode_eq {tests : List SuiteTest} (h : Visited env tests s) :
    (if s.results.errorCount > 0 ∨ s.results.failureCount > 0 then 2 else 0) =
      if ∃ call ∈ s.calls, call.result.status = .failure ∨ call.result.status = .error
        then 2 else 0 := by
  have herror := h.counter_pos_iff .error
  have hfailure := h.counter_pos_iff .failure
  congr 1
  apply propext
  rw [show s.results.errorCount = s.results.counter .error from rfl,
    show s.results.failureCount = s.results.counter .failure from rfl, herror, hfailure]
  constructor
  · rintro (⟨call, hcall, hstatus⟩ | ⟨call, hcall, hstatus⟩)
    · exact ⟨call, hcall, Or.inr hstatus⟩
    · exact ⟨call, hcall, Or.inl hstatus⟩
  · rintro ⟨call, hcall, hstatus | hstatus⟩
    · exact Or.inr ⟨call, hcall, hstatus⟩
    · exact Or.inl ⟨call, hcall, hstatus⟩

/-- Without tests the session ends before any call. -/
theorem mainRun_visited {suites : List TestSuite} {runMode : UInt32} {code : Nat}
    (htotal : (suites.flatMap TestSuite.tests).length < 2 ^ 32)
    (hrun : mainRun env suites runMode .start = .ok code s) :
    code = if ∃ call ∈ s.calls, call.result.status = .failure ∨ call.result.status = .error
      then 2 else 0 := by
  unfold mainRun at hrun
  split at hrun
  · obtain ⟨_, s₁, hprint, h₁⟩ := bind_eq_ok hrun
    obtain ⟨rfl, rfl⟩ := pure_eq_ok.mp h₁
    cases hprint
    rfl
  · obtain ⟨_, s₁, hsuites, h₁⟩ := bind_eq_ok hrun
    obtain ⟨hvisited, -⟩ := runSuites_visited htotal hsuites
    obtain ⟨_, _, hget, h₂⟩ := bind_eq_ok h₁
    cases hget
    obtain ⟨_, _, hset, h₃⟩ := bind_eq_ok h₂
    cases hset
    obtain ⟨rfl, rfl⟩ := pure_eq_ok.mp h₃
    exact hvisited.exitCode_eq

/-- Every test of the suites is called once, in order, and its result stands at its place and in
its counter, after each visit; the exit code tells whether there was a failure or an error. The two
arrays are taken to have room for the tests, as they have up to `pointersPerBlob`. -/
theorem every_test_once (env : Surroundings) (suites : List TestSuite) (runMode : UInt32)
    (htotal : (suites.flatMap TestSuite.tests).length < 2 ^ 32) :
    (∀ s, runSuites env suites runMode .start = .ok () s →
      s.calls.map (fun call => call.test.test) = suites.flatMap TestSuite.tests ∧
      (∀ (i : Nat) call, s.calls[i]? = some call →
        testRun (env.host i call.unflushed) call.test.test [] = .ok call.result call.events) ∧
      s.results.results = s.calls.map (fun call => some call.record) ∧
      (∀ status, (s.results.counter status).toNat = countStatus s.calls status) ∧
      s.results.passedCount.toNat + s.results.skippedCount.toNat + s.results.failureCount.toNat +
        s.results.incompleteCount.toNat + s.results.errorCount.toNat =
          s.results.resultsCount.toNat) ∧
    (∀ k s, ((∃ b, Rounds (detailRound env) none (TestSession.init suites .start) k b s) ∨
        ∃ b, Rounds (passthroughRound env) 0 (TestSession.init suites .start) k b s) →
      s.iterator.cursor.toNat = k ∧
      s.results.passedCount.toNat + s.results.skippedCount.toNat + s.results.failureCount.toNat +
        s.results.incompleteCount.toNat + s.results.errorCount.toNat = k) ∧
    (∀ code s, mainRun env suites runMode .start = .ok code s →
      code = if ∃ call ∈ s.calls, call.result.status = .failure ∨ call.result.status = .error
        then 2 else 0) := by
  refine ⟨?_, ?_, ?_⟩
  · intro s hrun
    obtain ⟨hvisited, hall⟩ := runSuites_visited htotal hrun
    refine ⟨hvisited.tests_eq hall, fun i call hcall => (hvisited.answered i call hcall).run, ?_,
      hvisited.counters, ?_⟩
    · rw [hvisited.results, hall, Nat.sub_self]
      exact List.append_nil _
    · rw [hvisited.sum_counters, hvisited.resultsCount, hall]
  · intro k s hrounds
    have hlength : (testIteratorInitBySuites suites).tests.length < 2 ^ 32 := by
      rw [← List.length_map (f := SuiteTest.test), init_tests]
      exact htotal
    have hinit : Visited env _ (TestSession.init suites .start) := visited_init htotal
    have hvisited : Visited env (testIteratorInitBySuites suites).tests s ∧ s.calls.length = k := by
      rcases hrounds with ⟨b, hrounds⟩ | ⟨b, hrounds⟩
      · exact hinit.rounds detailRound_visitsOnce hlength rfl hrounds
      · exact hinit.rounds passthroughRound_visitsOnce hlength rfl hrounds
    obtain ⟨hvisited, rfl⟩ := hvisited
    exact ⟨hvisited.cursor, hvisited.sum_counters⟩
  · intro code s hrun
    exact mainRun_visited htotal hrun

/-- Two suites with an empty one between them: a test that passes, a skipped one and one whose
output is not the expected one. -/
theorem every_test_once_three_tests :
    let test : ProgramRunnerTest := { makeProgramRunnerTest with
      name := some (ascii "t"), flags := testCompleteMask, programPath := some (ascii "/bin/x"),
      expectedStdout := some (ascii "hi") }
    let skipped := { test with flags := test.flags ||| testFlagSkipped }
    let suites : List TestSuite := [⟨⟨ascii "a.test", by decide⟩, [test, skipped]⟩,
      ⟨⟨ascii "b.test", by decide⟩, []⟩, ⟨⟨ascii "c.test", by decide⟩, [test]⟩]
    let env : Surroundings :=
      { host := fun i _ => ⟨true, true, .error [], none, none, none, none, none, .finished,
          ⟨false, some 0, fun
            | .stdout => [some (ascii (if i = 0 then "hi" else "ho"))]
            | .stderr => []⟩⟩
        buffering := .unbuffered
        useColors := false
        noSummary := true
        elapsedMs := 0 }
    ∃ s, mainRun env suites runModePassthrough .start = .ok 2 s ∧
      (∃ call ∈ s.calls, call.result.status = .failure ∨ call.result.status = .error) := by
  intro test skipped suites env
  have htotal : (suites.flatMap TestSuite.tests).length < 2 ^ 32 := by decide
  have hcode : (match mainRun env suites runModePassthrough .start with
      | .ok code _ => code
      | .error _ _ => 0) = 2 := by decide +kernel
  have hruns : ∃ s, mainRun env suites runModePassthrough .start = .ok 2 s := by
    cases hrun : mainRun env suites runModePassthrough .start with
    | ok code s =>
        rw [hrun] at hcode
        exact ⟨s, congrArg (EStateM.Result.ok · s) hcode⟩
    | error halt s =>
        rw [hrun] at hcode
        cases hcode
  obtain ⟨s, hrun⟩ := hruns
  refine ⟨s, hrun, ?_⟩
  have hexit := (every_test_once env suites runModePassthrough htotal).2.2 2 s hrun
  by_contra hnone
  rw [if_neg hnone] at hexit
  cases hexit

end JCUnit
