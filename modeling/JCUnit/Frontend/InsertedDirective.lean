import JCUnit.Frontend.SuiteRuns

/-!
# A directive inserted into a test

Where a requirement of a test stands in the file, the line of another requirement can be put in
front of it. Everything before that place is read as it was, and so is everything behind it.
-/

namespace JCUnit

/-- The line of a requirement that skips its test. -/
def skipLine : Bytes := ascii "@shouldBeSkipped\n"

def skipRequirement : AstRequirement := ⟨ascii "shouldBeSkipped", [], none⟩

/-- The test with this requirement in front of its `i`-th one. -/
def AstTest.skippedAt (test : AstTest) (i : Nat) : AstTest :=
  { test with
    requirements := test.requirements.take i ++ skipRequirement :: test.requirements.drop i }

/-- In the file with these tests, the directive of the `i`-th requirement of the `k`-th test is
what `after` begins with, and `after` is the rest of the file from there on. -/
inductive RequirementAt (source : Bytes) : List AstTest → Nat → Nat → Bytes → Prop
  | mk {start body after last next : Bytes} {earlier later : List AstTest}
      {arguments : List AstArgument} {done others : List AstRequirement}
      {requirement : AstRequirement} (hearlier : TestsText source earlier start)
      (hprolog : PrologText start arguments body) (hdone : RequirementsText body done after)
      (hothers : RequirementsText after (requirement :: others) last)
      (hlimit : done.length + (others.length + 1) ≤ maxRequirementCount)
      (hepilog : EpilogText last next) (hlater : TestsText next later []) :
      RequirementAt source (earlier ++ ⟨arguments, done ++ requirement :: others⟩ :: later)
        earlier.length done.length after

theorem getElem?_middle {α : Type} (front : List α) (a : α) (back : List α) :
    (front ++ a :: back)[front.length]? = some a := by
  rw [List.getElem?_append_right (Nat.le_refl _), Nat.sub_self, List.getElem?_cons_zero]

section Positions

variable {source after : Bytes} {tests : List AstTest} {test : AstTest} {k i : Nat}

/-- Every requirement of a parsed file has its place in the file. -/
theorem exists_requirementAt (hparse : parseTestSuite source = .ok tests)
    (htest : tests[k]? = some test) (hi : i < test.requirements.length) :
    ∃ after, RequirementAt source tests k i after := by
  have htests := (parseTestSuite_iff_testsText source tests).mp hparse
  obtain ⟨hk, hget⟩ := List.getElem?_eq_some_iff.mp htest
  have hsplit : tests = tests.take k ++ test :: tests.drop (k + 1) := by
    rw [← hget, List.getElem_cons_drop, List.take_append_drop]
  have hrequirements : test.requirements =
      test.requirements.take i ++ test.requirements[i] :: test.requirements.drop (i + 1) := by
    rw [List.getElem_cons_drop, List.take_append_drop]
  rw [hsplit] at htests
  obtain ⟨start, next, hearlier, htestText, hlater⟩ := htests.split
  obtain ⟨arguments, requirements⟩ := test
  cases htestText with
  | mk hprolog hbody hpositive hlimit hepilog =>
      dsimp only at hrequirements hi
      rw [hrequirements] at hbody hlimit
      obtain ⟨after, hdone, hothers⟩ := hbody.split
      rw [List.length_append, List.length_cons] at hlimit
      refine ⟨after, ?_⟩
      have hposition := RequirementAt.mk hearlier hprolog hdone hothers hlimit hepilog hlater
      rw [← hrequirements, ← hsplit, List.length_take, List.length_take,
        Nat.min_eq_left (Nat.le_of_lt hk), Nat.min_eq_left (Nat.le_of_lt hi)] at hposition
      exact hposition

theorem RequirementAt.getElem?_eq (h : RequirementAt source tests k i after) :
    ∃ test requirement following, tests[k]? = some test ∧
      test.requirements[i]? = some requirement ∧
      Lexes .directiveAndText after (.directive requirement.name) following := by
  cases h with
  | mk _ _ _ hothers _ _ _ =>
      cases hothers with
      | cons hrequirement _ _ =>
          obtain ⟨following, hlexes⟩ := hrequirement.lexes .directiveAndText
          exact ⟨_, _, following, getElem?_middle _ _ _, getElem?_middle _ _ _, hlexes⟩

theorem RequirementAt.head_eq (h : RequirementAt source tests k i after) :
    after.head? = some chAt := by
  obtain ⟨_, _, _, -, -, hlexes⟩ := h.getElem?_eq
  exact hlexes.head_directive

/-- The inserted line is a requirement of its own. -/
theorem skipLine_text (hhead : after.head? = some chAt) :
    RequirementText (skipLine ++ after) skipRequirement after := by
  have hname : IsName (ascii "shouldBeSkipped") := by decide
  have hskip : skipLine = chAt :: (ascii "shouldBeSkipped" ++ ([] ++ [chNewline])) := rfl
  have hlayout : DirectiveLayout (ascii "shouldBeSkipped") [] skipLine := by
    rw [hskip]
    exact .mk hname .absent
  have clean : 255 ∉ skipLine ++ [chAt] := by decide
  obtain ⟨⟨directive, arguments, unnamed⟩, hline, hdirective, harguments⟩ := hlayout.line clean
  obtain rfl : directive = ascii "shouldBeSkipped" := hdirective
  obtain rfl : arguments = [] := harguments
  obtain ⟨front, hfront, hcarried⟩ := hline.carries
  have hahead : SameAhead [chAt] after := by
    constructor
    · exact hhead.symm
    · cases after with
      | nil => cases hhead
      | cons b after => exact Nat.succ_le_succ (Nat.zero_le _)
  rw [List.append_cancel_right hfront]
  exact .bare (hcarried after hahead)

/-- With the line inserted, the file has the same tests, this one with the requirement added. -/
theorem RequirementAt.inserted (h : RequirementAt source tests k i after)
    (htest : tests[k]? = some test) (hroom : test.requirements.length < maxRequirementCount) :
    ∃ before, source = before ++ after ∧
      TestsText (before ++ (skipLine ++ after)) (tests.set k (test.skippedAt i)) [] := by
  have hskip := skipLine_text h.head_eq
  have hahead : SameAhead after (skipLine ++ after) := by
    constructor
    · rw [h.head_eq]
      rfl
    · rw [List.length_append]
      exact Nat.le_add_left _ _
  cases h with
  | @mk start body _ last next earlier later arguments done others requirement
      hearlier hprolog hdone hothers hlimit hepilog hlater =>
      rw [getElem?_middle] at htest
      obtain rfl := Option.some.inj htest
      obtain ⟨before, hsource, hcarried⟩ :=
        hearlier.carries.trans (hprolog.carries.trans hdone.carries)
      obtain ⟨start', hearlier', body', hprolog', hdone'⟩ := hcarried _ hahead
      refine ⟨before, hsource, ?_⟩
      have hbody : RequirementsText body' (done ++ skipRequirement :: requirement :: others) last :=
        hdone'.append (.cons hskip (by decide) hothers)
      have hinserted : AstTest.skippedAt ⟨arguments, done ++ requirement :: others⟩ done.length =
          ⟨arguments, done ++ skipRequirement :: requirement :: others⟩ := by
        simp [AstTest.skippedAt]
      rw [List.length_append, List.length_cons] at hroom
      have htestText : TestText start'
          (AstTest.skippedAt ⟨arguments, done ++ requirement :: others⟩ done.length) next := by
        rw [hinserted]
        refine .mk hprolog' hbody ?_ ?_ hepilog
        · simp only [List.length_append, List.length_cons]
          omega
        · simp only [List.length_append, List.length_cons]
          omega
      rw [List.set_append_right _ _ (Nat.le_refl _), Nat.sub_self, List.set_cons_zero]
      exact hearlier'.append (.test htestText hlater)

end Positions

end JCUnit
