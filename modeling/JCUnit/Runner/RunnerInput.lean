import JCUnit.Compile.CompiledTests
import JCUnit.Runner.TestRunner

/-!
# What the runner reads without a check

The runner follows the pointers of a compiled test that is neither incomplete nor
skipped. The compiler has set them all, whatever the order of the requirements was.
-/

namespace JCUnit

open StateError

variable {test : ProgramRunnerTest}

/-- Arguments with a placeholder come with a file. -/
theorem prepareGiven_isSome (hgiven : test.GivenChecked)
    (hfile : test.givenType ≠ givenTypeNone ∧ test.givenType ≠ givenTypeStdin) {host : Host}
    {events events' : List HostEvent} {filename : Option Bytes}
    (h : prepareGiven host test events = .ok filename events') : filename.isSome = true := by
  unfold prepareGiven at h
  split at h
  · obtain ⟨path, events₁, -, h⟩ := bind_eq_ok h
    obtain ⟨_, events₂, -, h⟩ := bind_eq_ok h
    rw [← (pure_eq_ok.mp h).1]
    rfl
  split at h
  · rename_i hreference
    obtain ⟨path, -, hpath⟩ := hgiven.reference hreference
    rw [← (pure_eq_ok.mp h).1, hpath]
    rfl
  · rename_i hnotFile hnotReference
    rcases hgiven.known with hnone | hfileType | hreference | hstdin
    · exact absurd hnone hfile.1
    · exact absurd hfileType hnotFile
    · exact absurd hreference hnotReference
    · exact absurd hstdin hfile.2

/-- What a test tree of the parser is compiled to: the fields the runner reads are there, and
the file name that a placeholder stands for is not `NULL`. -/
theorem compileTest_establishes {source : Bytes} {astTests : List AstTest} {astTest : AstTest}
    (hparsed : parseTestSuite source = .ok astTests) (hmem : astTest ∈ astTests)
    (h : compileTest astTest = .ok test) :
    (∃ name, name ≠ [] ∧ test.name = some name) ∧
      (∃ program, program ≠ [] ∧ test.programPath = some program) ∧
      (∀ args ∈ test.programArgs, args ≠ []) ∧
      (test.isIncomplete = true ↔
        ¬ astTest.has (ascii "given") ∨ ¬ astTest.has (ascii "expectOutput")) ∧
      (test.isIncomplete = false → test.isSkipped = false →
        (test.givenType = givenTypeNone ∨ test.givenType = givenTypeFile ∨
          test.givenType = givenTypeReference ∨ test.givenType = givenTypeStdin) ∧
        (test.givenType = givenTypeReference → ∃ path, path ≠ [] ∧ test.givenPath = some path) ∧
        (test.givenType = givenTypeFile →
          ∀ filename ∈ test.givenFilename, filename ≠ [] ∧ 47 ∉ cstr filename) ∧
        (test.substitutesFile = true →
          (test.givenType = givenTypeFile ∨ test.givenType = givenTypeReference) ∧
          ∀ (host : Host) (events events' : List HostEvent) (filename : Option Bytes),
            prepareGiven host test events = .ok filename events' → filename.isSome = true)) := by
  obtain ⟨compiled, hfrom, hwhen, hplaceholder, rfl⟩ := compileTest_compiledFrom h
  have hnamed := parseTestSuite_named hparsed astTest hmem
  have hprogram := hfrom.program hwhen
  refine ⟨hfrom.name, hprogram.program, hprogram.args, ?_, ?_⟩
  · have hflags := hfrom.flags
    rw [hwhen] at hflags
    rw [ProgramRunnerTest.isIncomplete, decide_eq_true_iff, hflags, markedFlags_incomplete,
      ← hnamed.any_isCalled, ← hnamed.any_isCalled, Bool.not_eq_true, Bool.not_eq_true]
  · intro _ _
    refine ⟨hfrom.given.known, hfrom.given.reference, hfrom.given.file, ?_⟩
    intro hsubstitutes
    have hfile := hplaceholder hsubstitutes
    constructor
    · rcases hfrom.given.known with hnone | hfileType | hreference | hstdin
      · exact absurd hnone hfile.1
      · exact Or.inl hfileType
      · exact Or.inr hreference
      · exact absurd hstdin hfile.2
    · intro host events events' filename hprepared
      exact prepareGiven_isSome ⟨hfrom.given.known, hfrom.given.reference, hfrom.given.file⟩ hfile
        hprepared

/-- A test with every kind of requirement and a placeholder. -/
def placeholderSource : Bytes :=
  ascii "@test(\"t\")\n@given(\"file\", filename=\"f\")\nx\n@whenRun(\"/bin/x\", args=\"-f " ++
    filePlaceholder ++ ascii "\")\n@expectOutput(\"stdout\")\nhi\n@endtest\n"

/-- What the parser makes of it. -/
def placeholderTest : AstTest :=
  ⟨[⟨none, ascii "t"⟩],
    [⟨ascii "given", [⟨none, ascii "file"⟩, ⟨some (ascii "filename"), ascii "f"⟩], some (ascii "x")⟩,
      ⟨ascii "whenRun", [⟨none, ascii "/bin/x"⟩,
        ⟨some (ascii "args"), ascii "-f " ++ filePlaceholder⟩], none⟩,
      ⟨ascii "expectOutput", [⟨none, ascii "stdout"⟩], some (ascii "hi")⟩]⟩

theorem compileTest_establishes_placeholder :
    ∃ test, compileTest placeholderTest = .ok test ∧
      (∃ name, name ≠ [] ∧ test.name = some name) ∧
      ∀ (host : Host) (events events' : List HostEvent) (filename : Option Bytes),
        prepareGiven host test events = .ok filename events' → filename.isSome = true := by
  have hparsed : parseTestSuite placeholderSource = .ok [placeholderTest] := by decide +kernel
  have hchecks : (compileTest placeholderTest).map (fun test =>
      (test.isIncomplete, test.isSkipped, test.substitutesFile)) = .ok (false, false, true) := by
    decide +kernel
  cases hcompiled : compileTest placeholderTest with
  | error halt =>
      rw [hcompiled] at hchecks
      cases hchecks
  | ok test =>
      rw [hcompiled] at hchecks
      obtain ⟨hincomplete, hskipped, hfile⟩ : test.isIncomplete = false ∧
          test.isSkipped = false ∧ test.substitutesFile = true := by
        simpa [Except.map] using hchecks
      obtain ⟨hname, -, -, -, hruns⟩ :=
        compileTest_establishes hparsed (List.mem_singleton_self _) hcompiled
      exact ⟨test, rfl, hname, ((hruns hincomplete hskipped).2.2.2 hfile).2⟩

end JCUnit
