import JCUnit.Foundation.Sections
import JCUnit.Suites.ReportSafety

/-!
# The layout of detail mode

Detail mode walks through one array of tests and looks at the suites of its neighbours only. It
prints the suites that have tests, one after the other, each with its heading, its results and a
blank line.
-/

namespace JCUnit

open StateError Loops Sections

/-- A call with the text that is shown for its result. -/
structure ShownCall where
  call : TestCall
  text : Bytes
deriving DecidableEq

def ShownCall.suite (shown : ShownCall) : Nat := shown.call.test.suite

def ShownCall.heading (shown : ShownCall) : Bytes :=
  ascii "Test Suite: " ++ shown.call.test.suiteName.bytes ++ [newline]

/-- The results between the suites of what stands before and behind them. -/
def detailListing (next : Option Nat) (shown : List ShownCall) : Bytes :=
  listing ShownCall.suite ShownCall.heading ShownCall.text [newline] next none shown

/-- A suite that has tests. -/
def suiteText (shown : List ShownCall) : Bytes :=
  block ShownCall.heading ShownCall.text [newline] shown

section Rounds

variable {env : Surroundings} {s s' : TestSession} {tests : List SuiteTest}

theorem printSuiteHeading_eq_ok {previous : Option Nat} {test : SuiteTest} {u : Unit}
    (h : printSuiteHeading env previous test s = .ok u s') :
    ∃ out, s' = s.withOut out ∧ out.printed = s.out.printed ++
      if previous ≠ some test.suite then
        ascii "Test Suite: " ++ test.suiteName.bytes ++ [newline]
      else [] := by
  unfold printSuiteHeading at h
  split at h
  · rename_i hother
    obtain rfl := fprintf_eq_ok h
    refine ⟨_, rfl, ?_⟩
    rw [if_pos hother, Stdout.printed_print]
  · rename_i hsame
    obtain ⟨-, rfl⟩ := pure_eq_ok.mp h
    refine ⟨s.out, rfl, ?_⟩
    rw [if_neg hsame, List.append_nil]

theorem showInDetail_eq_ok {suite : Nat} {record : TestRecord} {u : Unit}
    (h : showInDetail env suite record s = .ok u s') :
    ∃ text next out, showTestResultInDetailMode env.useColors record = .ok text ∧
      s.iterator.currentSafe = .ok next ∧ s' = s.withOut out ∧
      out.printed = s.out.printed ++ text ++
        if next.map SuiteTest.suite ≠ some suite then [newline] else [] := by
  obtain ⟨text, s₁, htext, h₁⟩ := bind_eq_ok h
  obtain ⟨hshow, rfl⟩ := orHalt_eq_ok htext
  obtain ⟨_, s₂, hprint, h₂⟩ := bind_eq_ok h₁
  obtain rfl := fprintf_eq_ok hprint
  obtain ⟨_, _, hget, h₃⟩ := bind_eq_ok h₂
  cases hget
  obtain ⟨next, s₃, hnext, h₄⟩ := bind_eq_ok h₃
  obtain ⟨hsafe, rfl⟩ := orHalt_eq_ok hnext
  split at h₄
  · rename_i hother
    obtain rfl := fprintf_eq_ok h₄
    refine ⟨text, next, _, hshow, hsafe, rfl, ?_⟩
    rw [if_pos hother, Stdout.printed_print]
    exact congrArg (· ++ _) (Stdout.printed_print _ _ _)
  · rename_i hsame
    obtain ⟨-, rfl⟩ := pure_eq_ok.mp h₄
    refine ⟨text, next, _, hshow, hsafe, rfl, ?_⟩
    rw [if_neg hsame, List.append_nil, Stdout.printed_print]

/-- A round that goes on: a heading if the suite is another one, a visit, and its result. -/
theorem detailRound_eq_some {previous previous' : Option Nat}
    (h : detailRound env previous s = .ok (some previous') s') :
    ∃ test out s₁ record, s.iterator.current = .ok test ∧ previous' = some test.suite ∧
      out.printed = s.out.printed ++ (if previous ≠ some test.suite then
        ascii "Test Suite: " ++ test.suiteName.bytes ++ [newline] else []) ∧
      Visit env (s.withOut out) s₁ record ∧
      showInDetail env test.suite record s₁ = .ok () s' := by
  obtain ⟨_, _, hget, h₁⟩ := bind_eq_ok h
  cases hget
  split at h₁
  · obtain ⟨hnone, -⟩ := pure_eq_ok.mp h₁
    cases hnone
  obtain ⟨test, s₁, htest, h₂⟩ := bind_eq_ok h₁
  obtain ⟨hcurrent, rfl⟩ := orHalt_eq_ok htest
  obtain ⟨_, s₂, hheading, h₃⟩ := bind_eq_ok h₂
  obtain ⟨out, rfl, hout⟩ := printSuiteHeading_eq_ok hheading
  obtain ⟨found, s₃, hvisit, h₄⟩ := bind_eq_ok h₃
  rcases testIteratorVisit_eq_ok hvisit with ⟨-, rfl, -⟩ | ⟨record, rfl, hvisited⟩
  · obtain ⟨hnone, -⟩ := pure_eq_ok.mp h₄
    cases hnone
  · obtain ⟨_, s₄, hshow, h₅⟩ := bind_eq_ok h₄
    obtain ⟨hsome, rfl⟩ := pure_eq_ok.mp h₅
    exact ⟨test, out, s₃, record, hcurrent, (Option.some.inj hsome).symm, hout, hvisited, hshow⟩

/-- What is printed of the calls so far; the first test that has not been called stands behind
them. -/
structure DetailProgress (env : Surroundings) (tests : List SuiteTest) (previous : Option Nat)
    (shown : List ShownCall) (s : TestSession) : Prop where
  visited : Visited env tests s
  calls : shown.map ShownCall.call = s.calls
  texts : ∀ shown₁ ∈ shown,
    showTestResultInDetailMode env.useColors shown₁.call.record = .ok shown₁.text
  previous : previous = lastKey ShownCall.suite none shown
  printed : s.out.printed = detailListing (tests[s.calls.length]?.map SuiteTest.suite) shown

theorem DetailProgress.round {previous previous' : Option Nat} {shown : List ShownCall}
    (htotal : tests.length < 2 ^ 32) (h : DetailProgress env tests previous shown s)
    (hrun : detailRound env previous s = .ok (some previous') s') :
    ∃ last, DetailProgress env tests previous' (shown ++ [last]) s' := by
  obtain ⟨test, out, s₁, record, hcurrent, rfl, hout, hvisit, hshow⟩ := detailRound_eq_some hrun
  obtain ⟨hvisited, hlength⟩ := (h.visited.withOut out).visit htotal hvisit
  obtain ⟨-, call, storage, results, hcall, -, -, rfl, -, rfl⟩ := hvisit
  obtain ⟨text, next, out', htext, hnext, rfl, hout'⟩ := showInDetail_eq_ok hshow
  have htest : call.test = test := Except.ok.inj (hcall.symm.trans hcurrent)
  have hplace : tests[s.calls.length]? = some test := h.visited.current_eq hcurrent
  have hnext' : next = tests[(s.calls ++ [call]).length]? :=
    Except.ok.inj (hnext.symm.trans hvisited.currentSafe_eq)
  refine ⟨⟨call, text⟩, hvisited.withOut out', ?_, ?_, ?_, ?_⟩
  · rw [List.map_append, h.calls]
    rfl
  · intro shown₁ hmem
    rcases List.mem_append.mp hmem with hold | hlast
    · exact h.texts shown₁ hold
    · obtain rfl := List.mem_singleton.mp hlast
      exact htext
  · rw [lastKey_concat, ← htest]
    rfl
  · change out'.printed = detailListing (tests[(s.calls ++ [call]).length]?.map SuiteTest.suite) _
    have hkey : ShownCall.suite ⟨call, text⟩ = test.suite := congrArg SuiteTest.suite htest
    have hheading : ShownCall.heading ⟨call, text⟩ =
        ascii "Test Suite: " ++ test.suiteName.bytes ++ [newline] := by
      rw [← htest]
      rfl
    rw [detailListing, listing_concat, entry, ← h.previous, hkey, hheading, ← hnext', hout']
    change out.printed ++ text ++ _ = _
    rw [hout, h.printed, hplace, Option.map_some, detailListing]
    simp only [List.append_assoc]

/-- What detail mode does behind its loop. -/
theorem endDetail_eq_ok {u : Unit}
    (h : (do
      let s ← get
      if !env.noSummary then fprintf env (printFinalSummary env.useColors env.elapsedMs s.results) :
      TestSessionM Unit) s = .ok u s') :
    ∃ out, s' = s.withOut out ∧ out.printed = s.out.printed ++
      if env.noSummary then [] else printFinalSummary env.useColors env.elapsedMs s.results := by
  obtain ⟨_, _, hget, hsummary⟩ := bind_eq_ok h
  cases hget
  cases hnoSummary : env.noSummary with
  | true =>
      rw [hnoSummary] at hsummary
      obtain ⟨-, rfl⟩ := pure_eq_ok.mp hsummary
      exact ⟨s.out, rfl, (List.append_nil _).symm⟩
  | false =>
      rw [hnoSummary] at hsummary
      exact ⟨_, fprintf_eq_ok hsummary, Stdout.printed_print _ _ _⟩

theorem detailProgress_init {suites : List TestSuite}
    (htotal : (suites.flatMap TestSuite.tests).length < 2 ^ 32) :
    DetailProgress env (testIteratorInitBySuites suites).tests none []
      (TestSession.init suites .start) :=
  ⟨visited_init htotal, rfl, fun _ hmem => absurd hmem List.not_mem_nil, rfl, rfl⟩

/-- When the loop is left, all results stand between the headings and blank lines of their
suites. -/
theorem DetailProgress.visitAll {previous' : Option Nat} (htotal : tests.length < 2 ^ 32)
    (h : DetailProgress env tests none [] s)
    (hrun : visitAll (detailRound env) none s = .ok previous' s') :
    ∃ shown, DetailProgress env tests previous' shown s' ∧ s'.calls.length = tests.length := by
  obtain ⟨_, _, hget, hloop⟩ := bind_eq_ok hrun
  cases hget
  obtain ⟨k, t, hrounds, hbreak⟩ := loop_eq_ok hloop
  obtain ⟨shown, hend⟩ : ∃ shown, DetailProgress env tests previous' shown t := by
    apply hrounds.invariant (I := fun _ b s => ∃ shown, DetailProgress env tests b shown s)
    · exact ⟨[], h⟩
    · rintro k b s b' s' ⟨shown, hprogress⟩ hround
      obtain ⟨last, hprogress'⟩ := hprogress.round htotal hround
      exact ⟨shown ++ [last], hprogress'⟩
  rcases detailRound_visitsOnce previous' t none s' hbreak with
    ⟨hfinished, -, rfl⟩ | ⟨_, _, _, hsome, -⟩
  · exact ⟨shown, hend,
      Nat.le_antisymm hend.visited.length_le (hend.visited.finished_iff.mp hfinished)⟩
  · cases hsome

/-- Every diff of a session that has come to its end in detail mode has been shown. -/
theorem runSuitesInDetailMode_shown {suites : List TestSuite} {u : Unit}
    (htotal : (suites.flatMap TestSuite.tests).length < 2 ^ 32)
    (hnamed : Named (suites.flatMap TestSuite.tests))
    (hrun : runSuitesInDetailMode env (TestSession.init suites .start) = .ok u s) :
    ∀ call ∈ s.calls, ¬call.result.Oversized := by
  rw [← init_tests] at hnamed
  have hlength := htotal
  rw [← length_init_tests] at hlength
  obtain ⟨last, t, hloop, hend⟩ := bind_eq_ok hrun
  obtain ⟨shown, hshown, -⟩ := (detailProgress_init htotal).visitAll hlength hloop
  obtain ⟨out, rfl, -⟩ := endDetail_eq_ok hend
  intro call hcall hover
  have hreportable := hshown.visited.reportable hnamed call hcall
  have hcall : call ∈ t.calls := hcall
  rw [← hshown.calls] at hcall
  obtain ⟨shown₁, hmem, rfl⟩ := List.mem_map.mp hcall
  rcases hreportable.showInDetail_cases env.useColors with ⟨hfits, -⟩ | ⟨-, hundefined⟩
  · exact hfits hover
  · cases hundefined.symm.trans (hshown.texts shown₁ hmem)

end Rounds

section Suites

variable {suites : List TestSuite} {groups : List (List ShownCall)}

/-- The tests of a suite, with its place and name. -/
def suiteTests (suite : TestSuite × Nat) : List SuiteTest :=
  suite.1.tests.map fun test => ⟨suite.2, suite.1.name, test⟩

theorem suite_of_mem_suiteTests {suite : TestSuite × Nat} {test : SuiteTest}
    (h : test ∈ suiteTests suite) : test.suite = suite.2 := by
  obtain ⟨_, -, rfl⟩ := List.mem_map.mp h
  rfl

theorem init_tests_eq_flatten (suites : List TestSuite) :
    (testIteratorInitBySuites suites).tests = (suites.zipIdx.map suiteTests).flatten := by
  have hfold : ∀ (suites : List (TestSuite × Nat)) (tests : List SuiteTest),
      suites.foldl appendTests tests = tests ++ (suites.map suiteTests).flatten := by
    intro suites
    induction suites with
    | nil => exact fun tests => (List.append_nil tests).symm
    | cons suite suites ih =>
        intro tests
        rw [List.foldl_cons, ih, appendTests_eq, List.append_assoc]
        rfl
  exact hfold suites.zipIdx []

/-- The places of the suites tell the groups apart. -/
theorem groups_apart (h : groups.map (List.map fun shown => shown.call.test) =
    suites.zipIdx.map suiteTests) :
    (∀ group ∈ groups, ∀ a ∈ group, ∀ b ∈ group, a.suite = b.suite) ∧
      groups.Pairwise fun group other => ∀ a ∈ group, ∀ b ∈ other, a.suite ≠ b.suite := by
  constructor
  · intro group hgroup a ha b hb
    have hmem : group.map (fun shown => shown.call.test) ∈ suites.zipIdx.map suiteTests := by
      rw [← h]
      exact List.mem_map_of_mem hgroup
    obtain ⟨suite, -, htests⟩ := List.mem_map.mp hmem
    have hkey : ∀ shown ∈ group, shown.suite = suite.2 := by
      intro shown hshown
      apply suite_of_mem_suiteTests
      rw [htests]
      exact List.mem_map_of_mem (f := fun shown : ShownCall => shown.call.test) hshown
    rw [hkey a ha, hkey b hb]
  · have hplaces : (suites.zipIdx.map Prod.snd).Pairwise (· < ·) := by
      rw [List.zipIdx_map_snd]
      exact List.pairwise_lt_range'
    have hsuites : (suites.zipIdx.map suiteTests).Pairwise fun tests others =>
        ∀ a ∈ tests, ∀ b ∈ others, a.suite ≠ b.suite := by
      rw [List.pairwise_map] at hplaces ⊢
      apply hplaces.imp
      intro suite other hlt a ha b hb
      rw [suite_of_mem_suiteTests ha, suite_of_mem_suiteTests hb]
      exact Nat.ne_of_lt hlt
    rw [← h, List.pairwise_map] at hsuites
    apply hsuites.imp
    intro group other happart a ha b hb
    exact happart _ (List.mem_map_of_mem ha) _ (List.mem_map_of_mem hb)

end Suites

/-- Detail mode prints the suites in their order. Each stands in one piece: its name, the result
of each of its tests, in their order, and a blank line; of a suite without tests nothing is
printed. Only the run of a test can prevent it, or a diff that does not fit a blob of the memory
pool. -/
theorem detail_layout (env : Surroundings) (suites : List TestSuite)
    (hroom : (suites.flatMap TestSuite.tests).length ≤ pointersPerBlob)
    (hnamed : Named (suites.flatMap TestSuite.tests)) :
    (∀ s, runSuites env suites runModeDetail .start = .ok () s →
      ∃ groups : List (List ShownCall),
        groups.flatten.map ShownCall.call = s.calls ∧
        groups.map (List.map fun shown => shown.call.test) = suites.zipIdx.map suiteTests ∧
        (∀ shown ∈ groups.flatten,
          showTestResultInDetailMode env.useColors shown.call.record = .ok shown.text) ∧
        s.out.printed = groups.flatMap suiteText ++
          if env.noSummary then []
          else printFinalSummary env.useColors env.elapsedMs s.results) ∧
    ∀ halt s, runSuites env suites runModeDetail .start = .error halt s →
      EndedInTestRun env (suites.flatMap TestSuite.tests) halt s ∨ EndedInDiff halt s := by
  have htotal := lt_of_le_pointersPerBlob hroom
  constructor
  · intro s hrun
    have hlength := htotal
    rw [← init_tests, List.length_map] at hlength
    have hdetail : runSuitesInDetailMode env (TestSession.init suites .start) = .ok () s := hrun
    obtain ⟨last, t, hloop, hend⟩ := bind_eq_ok hdetail
    obtain ⟨shown, hshown, hall⟩ := (detailProgress_init htotal).visitAll hlength hloop
    have hcalls := hshown.visited.calls
    rw [hall, List.take_length, ← hshown.calls, List.map_map, init_tests_eq_flatten] at hcalls
    obtain ⟨groups, rfl, hgroups⟩ := exists_sections hcalls
    obtain ⟨hsame, hdiffer⟩ := groups_apart hgroups
    have hprinted := hshown.printed
    rw [hall, List.getElem?_length, Option.map_none, detailListing,
      listing_flatten hsame hdiffer (fun _ _ _ _ => Option.some_ne_none _ |>.symm)] at hprinted
    obtain ⟨out, rfl, hout⟩ := endDetail_eq_ok hend
    refine ⟨groups, hshown.calls, hgroups, hshown.texts, ?_⟩
    change out.printed = _
    rw [hout, hprinted]
    rfl
  · intro halt s hrun
    rcases runSuites_ended (Or.inl rfl) htotal hnamed hrun with hstopped | hover
    · have hended := hstopped.ended
      rw [init_tests] at hended
      exact Or.inl hended
    · exact Or.inr hover.ended

/-- A suite with two tests, an empty one and one with a test whose output is not the expected
one. -/
theorem detail_layout_three_suites :
    let test : ProgramRunnerTest := { makeProgramRunnerTest with
      name := some (ascii "t"), flags := testCompleteMask, programPath := some (ascii "/bin/x"),
      expectedStdout := some (ascii "hi") }
    let skipped := { test with flags := test.flags ||| testFlagSkipped }
    let suites : List TestSuite := [⟨⟨ascii "a.test", by decide⟩, [test, skipped]⟩,
      ⟨⟨ascii "b.test", by decide⟩, []⟩, ⟨⟨ascii "c.test", by decide⟩, [test]⟩]
    let env : Surroundings :=
      { host := fun i _ => ⟨true, true, .error [], none, none, none, none, none, .finished,
          ⟨false, some 0, fun
            | .stdout => [some (ascii (if i = 0 then "hi" else "ho"))]
            | .stderr => []⟩⟩
        buffering := .lineBuffered 1024
        useColors := false
        noSummary := true
        elapsedMs := 0 }
    ∃ s, runSuites env suites runModeDetail .start = .ok () s ∧
      ∃ groups : List (List ShownCall), groups.map List.length = [2, 0, 1] ∧
        s.out.printed = groups.flatMap suiteText := by
  intro test skipped suites env
  have hroom : (suites.flatMap TestSuite.tests).length ≤ pointersPerBlob := by decide
  have hnamed : Named (suites.flatMap TestSuite.tests) := by
    simp [Named, suites, test, skipped]
  have hends : (runSuites env suites runModeDetail).run' .start = some () := by decide +kernel
  obtain ⟨s, hrun⟩ := run'_eq_some hends
  obtain ⟨groups, -, hgroups, -, hprinted⟩ := (detail_layout env suites hroom hnamed).1 s hrun
  refine ⟨s, hrun, groups, ?_, ?_⟩
  · have hlengths := congrArg (List.map List.length) hgroups
    rw [List.map_map] at hlengths
    have hmap : List.length ∘ List.map (fun shown : ShownCall => shown.call.test) =
        List.length := by
      funext group
      exact List.length_map _
    rw [hmap] at hlengths
    exact hlengths
  · rw [hprinted]
    exact List.append_nil _

end JCUnit
