import JCUnit.Foundation.StateError
import JCUnit.Frontend.Parser

/-!
# The names of parsed directives

Whatever the bytes of a file are, the name of a requirement that is parsed consists
of the bytes of names, and a test that is parsed has one to four requirements.
-/

namespace JCUnit

open StateError

/-- The text of a directive or a name has only the bytes of names. -/
def Token.Spelled : Token → Prop
  | .directive text => ∀ b ∈ text, isNameChar b = true
  | .name text => ∀ b ∈ text, isNameChar b = true
  | _ => True

/-- The tokens that have been pushed back are spelled as tokens are. -/
def TokenizerContext.BufferSpelled (context : TokenizerContext) : Prop :=
  ∀ token ∈ context.tokenBuffer, token.Spelled

abbrev Spells {α : Type} (x : TokM α) (Q : α → Prop) : Prop :=
  Keeps TokenizerContext.BufferSpelled x Q

theorem isNameChar_of_start {b : Byte} (h : isStartNameChar b = true) : isNameChar b = true := by
  rw [isStartNameChar] at h
  rw [isNameChar, h, Bool.true_or]

theorem getOneChar_spells : Spells getOneChar fun _ => True := by
  intro s ch s' hs hrun
  unfold getOneChar at hrun
  split at hrun
  · cases hrun
    exact ⟨hs, trivial⟩
  · split at hrun
    · cases hrun
      exact ⟨hs, trivial⟩
    · cases hrun
      exact ⟨hs, trivial⟩

theorem ungetOneChar_spells (ch : Option Byte) : Spells (ungetOneChar ch) fun _ => True := by
  intro s u s' hs hrun
  unfold ungetOneChar at hrun
  split at hrun
  · cases hrun
  · cases ch with
    | none =>
        cases hrun
        exact ⟨hs, trivial⟩
    | some b =>
        cases hrun
        exact ⟨hs, trivial⟩

theorem peekOneChar_spells : Spells peekOneChar fun _ => True := by
  apply Keeps.bind getOneChar_spells
  intro ch _
  apply Keeps.bind (ungetOneChar_spells ch)
  intro _ _
  exact Keeps.pure trivial

theorem getOneNameLoop_spells {room : Nat} {buffer : Bytes} {ch : Byte}
    (hbuffer : ∀ b ∈ buffer, isNameChar b = true) (hch : isNameChar ch = true) :
    Spells (getOneNameLoop room buffer ch) fun result => ∀ b ∈ result.1, isNameChar b = true := by
  have hnext : ∀ b ∈ buffer ++ [ch], isNameChar b = true := by
    intro b hb
    rcases List.mem_append.mp hb with hold | hlast
    · exact hbuffer b hold
    · rwa [List.mem_singleton.mp hlast]
  induction room generalizing buffer ch with
  | zero => exact Keeps.throw _
  | succ room ih =>
      apply Keeps.bind getOneChar_spells
      intro next _
      cases next with
      | none => exact Keeps.pure hnext
      | some b =>
          dsimp only
          split
          · rename_i hb
            apply ih hnext hb
            intro c hc
            rcases List.mem_append.mp hc with hold | hlast
            · exact hnext c hold
            · rwa [List.mem_singleton.mp hlast]
          · exact Keeps.pure hnext

theorem getOneName_spells {ch : Byte} (hch : isNameChar ch = true) {kind : Bytes → Token}
    (hkind : ∀ text : Bytes, (∀ b ∈ text, isNameChar b = true) → (kind text).Spelled) :
    Spells (getOneName ch kind) Token.Spelled := by
  apply Keeps.bind
  · apply getOneNameLoop_spells ?_ hch
    intro b hb
    cases hb
  · intro result hresult
    apply Keeps.bind (ungetOneChar_spells _)
    intro _ _
    exact Keeps.pure (hkind _ hresult)

theorem getOneStringLoop_spells {room : Nat} {buffer : Bytes} {ch : Option Byte} :
    Spells (getOneStringLoop room buffer ch) fun _ => True := by
  induction room generalizing buffer ch with
  | zero => exact Keeps.throw _
  | succ room ih =>
      cases ch with
      | none => exact Keeps.throw _
      | some b =>
          unfold getOneStringLoop
          split
          · exact Keeps.pure trivial
          split
          · exact Keeps.throw _
          apply Keeps.bind getOneChar_spells
          intro next _
          exact ih

theorem afterAt_spells : Spells afterAt Token.Spelled := by
  apply Keeps.bind getOneChar_spells
  intro next _
  have hback : Spells (do ungetOneChar next; return .character chAt) Token.Spelled := by
    apply Keeps.bind (ungetOneChar_spells next)
    intro _ _
    exact Keeps.pure trivial
  cases next with
  | none => exact hback
  | some b =>
      dsimp only
      split
      · rename_i hb
        exact getOneName_spells (isNameChar_of_start hb) fun _ h => h
      split
      · exact Keeps.pure trivial
      · exact hback

theorem otherToken_spells (ch : Byte) : Spells (otherToken ch) Token.Spelled := by
  unfold otherToken
  iterate 5
    split
    · exact Keeps.pure trivial
  split
  · apply Keeps.bind getOneChar_spells
    intro next _
    apply Keeps.bind getOneStringLoop_spells
    intro text _
    exact Keeps.pure trivial
  split
  · rename_i hstart
    exact getOneName_spells (isNameChar_of_start hstart) fun _ h => h
  · exact Keeps.pure trivial

theorem lexToken_spells : Spells lexToken Token.Spelled := by
  apply Keeps.bind getOneChar_spells
  intro ch _
  cases ch with
  | none => exact Keeps.pure trivial
  | some b =>
      dsimp only
      split
      · exact afterAt_spells
      apply Keeps.bind Keeps.get
      intro context _
      split
      · exact Keeps.pure trivial
      · exact otherToken_spells b

/-- Every token that is delivered is spelled as tokens are. -/
theorem getOneToken_spells : Spells getOneToken Token.Spelled := by
  intro s token s' hs hrun
  unfold getOneToken at hrun
  cases hbuffer : s.tokenBuffer with
  | nil =>
      simp only [hbuffer] at hrun
      exact lexToken_spells s token s' hs hrun
  | cons front rest =>
      have hall : ∀ token ∈ front :: rest, token.Spelled := hbuffer ▸ hs
      simp only [hbuffer] at hrun
      cases hrun
      constructor
      · intro other hother
        exact hall other (List.mem_cons_of_mem _ hother)
      · exact hall token List.mem_cons_self

theorem ungetOneToken_spells {token : Token} (h : token.Spelled) :
    Spells (ungetOneToken token) fun _ => True := by
  intro s u s' hs hrun
  unfold ungetOneToken at hrun
  split at hrun
  · cases hrun
  split at hrun
  · cases hrun
    exact ⟨hs, trivial⟩
  · cases hrun
    refine ⟨?_, trivial⟩
    intro other hother
    rcases List.mem_cons.mp hother with rfl | hrest
    · exact h
    · exact hs other hrest

theorem peekOneToken_spells : Spells peekOneToken Token.Spelled := by
  apply Keeps.bind getOneToken_spells
  intro token htoken
  apply Keeps.bind (ungetOneToken_spells htoken)
  intro _ _
  exact Keeps.pure htoken

theorem setMode_spells (mode : TokenizerMode) : Spells (setMode mode) fun _ => True := by
  intro s u s' hs hrun
  cases hrun
  exact ⟨hs, trivial⟩

/-! ## Through the parser -/

theorem skipWhitespacesLoop_spells {rounds : Nat} {ch : Option Byte} :
    Spells (skipWhitespacesLoop rounds ch) fun _ => True := by
  induction rounds generalizing ch with
  | zero =>
      unfold skipWhitespacesLoop
      cases ch with
      | none => exact Keeps.pure trivial
      | some b =>
          dsimp only
          split
          · exact Keeps.throw _
          · exact Keeps.pure trivial
  | succ rounds ih =>
      unfold skipWhitespacesLoop
      cases ch with
      | none => exact Keeps.pure trivial
      | some b =>
          dsimp only
          split
          · apply Keeps.bind getOneChar_spells
            intro next _
            exact ih
          · exact Keeps.pure trivial

theorem skipWhitespaces_spells : Spells skipWhitespaces fun _ => True := by
  apply Keeps.bind getOneChar_spells
  intro ch _
  apply Keeps.bind Keeps.get
  intro context _
  apply Keeps.bind skipWhitespacesLoop_spells
  intro ch _
  exact ungetOneChar_spells ch

/-- The directive of the record is the one it was started with. -/
def DirectiveParseContext.Of (name : Bytes) (directive : DirectiveParseContext) : Prop :=
  directive.directive = name

theorem parseNamedDirectiveArgument_spells {name : Bytes} {directive : DirectiveParseContext}
    (h : directive.Of name) :
    Spells (parseNamedDirectiveArgument directive) fun result => result.Of name := by
  apply Keeps.bind getOneToken_spells
  intro token _
  apply Keeps.bind getOneToken_spells
  intro token _
  split
  · exact Keeps.throw _
  apply Keeps.bind getOneToken_spells
  intro token _
  split
  · exact Keeps.pure h
  · exact Keeps.throw _

theorem parseDirectiveArgument_spells {name : Bytes} {directive : DirectiveParseContext}
    (h : directive.Of name) :
    Spells (parseDirectiveArgument directive) fun result => result.Of name := by
  apply Keeps.bind getOneToken_spells
  intro token htoken
  split
  · apply Keeps.bind (ungetOneToken_spells htoken)
    intro _ _
    exact parseNamedDirectiveArgument_spells h
  · split
    · exact Keeps.throw _
    · exact Keeps.pure h
  · exact Keeps.throw _

theorem parseDirectiveArgumentsLoop_spells {rounds : Nat} {name : Bytes}
    {directive : DirectiveParseContext} (h : directive.Of name) :
    Spells (parseDirectiveArgumentsLoop rounds directive) fun result => result.Of name := by
  induction rounds generalizing directive with
  | zero => exact Keeps.throw _
  | succ rounds ih =>
      apply Keeps.bind skipWhitespaces_spells
      intro _ _
      apply Keeps.bind peekOneToken_spells
      intro token _
      split
      · exact Keeps.pure h
      apply Keeps.bind (parseDirectiveArgument_spells h)
      intro next hnext
      apply Keeps.bind getOneToken_spells
      intro token htoken
      split
      · exact ih hnext
      · apply Keeps.bind (ungetOneToken_spells htoken)
        intro _ _
        exact Keeps.pure hnext

theorem parseOptionalArguments_spells {name : Bytes} {directive : DirectiveParseContext}
    (h : directive.Of name) :
    Spells (parseOptionalArguments directive) fun result => result.Of name := by
  apply Keeps.bind peekOneChar_spells
  intro ch _
  split
  · apply Keeps.bind getOneToken_spells
    intro _ _
    apply Keeps.bind Keeps.get
    intro context _
    apply Keeps.bind (parseDirectiveArgumentsLoop_spells h)
    intro result hresult
    apply Keeps.bind getOneToken_spells
    intro token _
    split
    · exact Keeps.throw _
    · exact Keeps.pure hresult
  · exact Keeps.pure h

theorem parseDirective_spells :
    Spells parseDirective fun result => ∀ b ∈ result.directive, isNameChar b = true := by
  apply Keeps.bind getOneToken_spells
  intro token htoken
  split
  · rename_i name
    apply Keeps.bind Keeps.get
    intro context _
    apply Keeps.bind (setMode_spells _)
    intro _ _
    have hof : DirectiveParseContext.Of name ⟨name, [], false⟩ := rfl
    apply Keeps.bind (parseOptionalArguments_spells hof)
    intro directive hdirective
    apply Keeps.bind getOneToken_spells
    intro token _
    split
    · exact Keeps.throw _
    apply Keeps.bind (setMode_spells _)
    intro _ _
    apply Keeps.pure
    rw [DirectiveParseContext.Of] at hdirective
    rw [hdirective]
    exact htoken
  · exact Keeps.throw _

theorem parseContentLoop_spells {room : Nat} {buffer : Bytes} {lastCh : Byte} :
    Spells (parseContentLoop room buffer lastCh) fun _ => True := by
  induction room generalizing buffer lastCh with
  | zero => exact Keeps.throw _
  | succ room ih =>
      apply Keeps.bind getOneToken_spells
      intro token htoken
      split
      · exact Keeps.throw _
      split
      · apply Keeps.bind (ungetOneToken_spells htoken)
        intro _ _
        exact Keeps.pure trivial
      · exact ih

/-- The name of the requirement has only the bytes of names. -/
def AstRequirement.Named (requirement : AstRequirement) : Prop :=
  ∀ b ∈ requirement.name, isNameChar b = true

theorem parseRequirement_spells : Spells parseRequirement AstRequirement.Named := by
  apply Keeps.bind parseDirective_spells
  intro directive hname
  apply Keeps.bind peekOneToken_spells
  intro token _
  split
  · exact Keeps.pure hname
  apply Keeps.bind Keeps.get
  intro context _
  apply Keeps.bind (setMode_spells _)
  intro _ _
  apply Keeps.bind parseContentLoop_spells
  intro result _
  apply Keeps.bind (setMode_spells _)
  intro _ _
  exact Keeps.pure hname

theorem parseRequirementListLoop_spells {room : Nat} {requirements : List AstRequirement}
    (hnamed : ∀ requirement ∈ requirements, requirement.Named) :
    Spells (parseRequirementListLoop room requirements) fun result =>
      ∀ requirement ∈ result, requirement.Named := by
  induction room generalizing requirements with
  | zero =>
      unfold parseRequirementListLoop
      apply Keeps.bind peekOneToken_spells
      intro token _
      split
      · exact Keeps.pure hnamed
      · exact Keeps.throw _
  | succ room ih =>
      unfold parseRequirementListLoop
      apply Keeps.bind peekOneToken_spells
      intro token _
      split
      · exact Keeps.pure hnamed
      apply Keeps.bind parseRequirement_spells
      intro requirement hrequirement
      apply ih
      intro other hother
      rcases List.mem_append.mp hother with hold | hnew
      · exact hnamed other hold
      · rwa [List.mem_singleton.mp hnew]

theorem parseRequirementList_spells :
    Spells parseRequirementList fun result => ∀ requirement ∈ result, requirement.Named := by
  apply Keeps.bind getOneToken_spells
  intro token htoken
  split
  · exact Keeps.throw _
  apply Keeps.bind (ungetOneToken_spells htoken)
  intro _ _
  apply parseRequirementListLoop_spells
  intro requirement hmem
  cases hmem

/-- The names of the test's requirements have only the bytes of names. -/
def AstTest.Named (test : AstTest) : Prop :=
  ∀ requirement ∈ test.requirements, requirement.Named

theorem parseTestProlog_spells : Spells parseTestProlog fun _ => True := by
  apply Keeps.bind parseDirective_spells
  intro directive _
  split
  · exact Keeps.throw _
  · exact Keeps.pure trivial

theorem parseTestEpilog_spells : Spells parseTestEpilog fun _ => True := by
  apply Keeps.bind parseDirective_spells
  intro directive _
  split
  · exact Keeps.throw _
  split
  · exact Keeps.throw _
  · exact Keeps.pure trivial

theorem parseTest_spells : Spells parseTest AstTest.Named := by
  apply Keeps.bind parseTestProlog_spells
  intro arguments _
  apply Keeps.bind (setMode_spells _)
  intro _ _
  apply Keeps.bind parseRequirementList_spells
  intro requirements hrequirements
  apply Keeps.bind (setMode_spells _)
  intro _ _
  apply Keeps.bind parseTestEpilog_spells
  intro _ _
  exact Keeps.pure hrequirements

theorem skipNewlinesLoop_spells {rounds : Nat} :
    Spells (skipNewlinesLoop rounds) fun _ => True := by
  induction rounds with
  | zero => exact Keeps.throw _
  | succ rounds ih =>
      apply Keeps.bind getOneToken_spells
      intro token htoken
      split
      · exact ih
      · apply Keeps.bind (ungetOneToken_spells htoken)
        intro _ _
        exact Keeps.pure trivial

theorem parseTestSuiteLoop_spells {rounds : Nat} {token : Token} {tests : List AstTest}
    (hnamed : ∀ test ∈ tests, test.Named) :
    Spells (parseTestSuiteLoop rounds token tests) fun result => ∀ test ∈ result, test.Named := by
  induction rounds generalizing token tests with
  | zero => exact Keeps.throw _
  | succ rounds ih =>
      unfold parseTestSuiteLoop
      split
      · exact Keeps.pure hnamed
      split
      · apply Keeps.bind Keeps.get
        intro context _
        apply Keeps.bind skipNewlinesLoop_spells
        intro next _
        exact ih hnamed
      · apply Keeps.bind parseTest_spells
        intro test htest
        apply Keeps.bind peekOneToken_spells
        intro next _
        apply ih
        intro other hother
        rcases List.mem_append.mp hother with hold | hnew
        · exact hnamed other hold
        · rwa [List.mem_singleton.mp hnew]

/-- The requirements of a parsed file are named as directives are. -/
theorem parseTestSuite_named {source : Bytes} {tests : List AstTest}
    (h : parseTestSuite source = .ok tests) : ∀ test ∈ tests, test.Named := by
  have hsuite : Spells parseTestSuiteM fun tests => ∀ test ∈ tests, test.Named := by
    apply Keeps.bind peekOneToken_spells
    intro token _
    apply Keeps.bind Keeps.get
    intro context _
    apply parseTestSuiteLoop_spells
    intro test hmem
    cases hmem
  unfold parseTestSuite at h
  cases hrun : parseTestSuiteM (initTokenizerContext source) with
  | error halt s' =>
      rw [hrun] at h
      cases h
  | ok result s' =>
      rw [hrun] at h
      cases h
      refine (hsuite _ _ _ ?_ hrun).2
      intro token hmem
      cases hmem

end JCUnit
