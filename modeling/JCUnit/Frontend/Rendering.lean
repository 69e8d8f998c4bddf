import JCUnit.Frontend.SuiteRuns

/-!
# The trees that files give

A tree is expressible when its names, values and contents respect the limits of the source. Every
tree that is read from a file is expressible, and one canonical text gives each expressible tree.
-/

namespace JCUnit

/-- An argument as it stands between the parentheses, with its name if it has one. -/
def AstArgument.render (argument : AstArgument) : Bytes :=
  argument.name.elim [] (fun name => name ++ [chEquals]) ++ quoted argument.value

/-- A comma stands behind every argument. -/
def renderArguments (arguments : List AstArgument) : Bytes :=
  if arguments = [] then [] else
    chLeftParen :: (arguments.flatMap (fun argument => argument.render ++ [chComma]) ++
      [chRightParen])

/-- A directive on a line of its own. -/
def renderDirective (name : Bytes) (arguments : List AstArgument) : Bytes :=
  chAt :: (name ++ (renderArguments arguments ++ [chNewline]))

/-- The newline that the parser drops at the end of a content, as long as the buffer has room. -/
def contentChars (content : Bytes) : Bytes :=
  if content.length ≤ 8190 then content ++ [chNewline] else content

/-- Every at sign is doubled. -/
def escapeContent (chars : Bytes) : Bytes :=
  chars.flatMap fun b => if b = chAt then [chAt, chAt] else [b]

/-- A requirement: its directive, and its content if it has one. -/
def AstRequirement.render (requirement : AstRequirement) : Bytes :=
  renderDirective requirement.name requirement.arguments ++
    requirement.content.elim [] fun content => escapeContent (contentChars content)

/-- A test between its directive `test` and `endtest`. -/
def AstTest.render (test : AstTest) : Bytes :=
  renderDirective (ascii "test") test.arguments ++
    (test.requirements.flatMap AstRequirement.render ++ renderDirective (ascii "endtest") [])

/-- The tests one behind the other. -/
def renderSuite (tests : List AstTest) : Bytes := tests.flatMap AstTest.render

/-- A text can give this argument: its name is one, and its value is a string of the source. -/
structure AstArgument.Expressible (argument : AstArgument) : Prop where
  name : ∀ name ∈ argument.name, IsName name
  value : IsString argument.value
  clean : 255 ∉ argument.value

/-- At most one argument of a directive has no name. -/
structure ExpressibleArguments (arguments : List AstArgument) : Prop where
  each : ∀ argument ∈ arguments, argument.Expressible
  unnamed : unnamedCount arguments ≤ 1

/-- A content that fills the buffer ends in no newline. -/
structure ExpressibleContent (content : Bytes) : Prop where
  limit : content.length ≤ 8191
  full : content.length = 8191 → content.getLast? ≠ some chNewline
  clean : 255 ∉ content

/-- A text can give this requirement. -/
structure AstRequirement.Expressible (requirement : AstRequirement) : Prop where
  name : IsName requirement.name
  notEnd : requirement.name ≠ ascii "endtest"
  arguments : ExpressibleArguments requirement.arguments
  content : ∀ content ∈ requirement.content, ExpressibleContent content

/-- A text can give this test: it has 1 to 4 requirements, all of which a text can give. -/
structure AstTest.Expressible (test : AstTest) : Prop where
  arguments : ExpressibleArguments test.arguments
  requirements : ∀ requirement ∈ test.requirements, requirement.Expressible
  positive : 1 ≤ test.requirements.length
  limit : test.requirements.length ≤ 4

section Layouts

variable {argument : AstArgument} {arguments : List AstArgument} {requirement : AstRequirement}
  {requirements : List AstRequirement} {test : AstTest} {tests : List AstTest}
  {name chars content : Bytes}

/-- What is printed of an argument is laid out as the parser expects it. -/
theorem AstArgument.Expressible.layout (h : argument.Expressible) :
    ArgumentLayout argument argument.render := by
  obtain ⟨name, value⟩ := argument
  cases name with
  | none => exact .unnamed h.value
  | some name =>
      unfold AstArgument.render
      rw [Option.elim_some, List.append_assoc]
      exact .named (h.name name rfl) h.value

theorem layout_of_expressible (h : ∀ argument ∈ arguments, argument.Expressible) :
    ArgumentListLayout arguments
      (arguments.flatMap fun argument => argument.render ++ [chComma]) := by
  induction arguments with
  | nil => exact .nil nofun
  | cons argument arguments ih =>
      obtain ⟨hargument, harguments⟩ := List.forall_mem_cons.mp h
      have hlayout : ArgumentListLayout (argument :: arguments) ([] ++ (argument.render ++
          chComma :: arguments.flatMap fun argument => argument.render ++ [chComma])) :=
        .more nofun hargument.layout (ih harguments)
      rw [List.flatMap_cons, List.append_assoc]
      exact hlayout

/-- The arguments in their parentheses, or nothing where there are none. -/
theorem ExpressibleArguments.layout (h : ExpressibleArguments arguments) :
    OptionalArgumentsLayout arguments (renderArguments arguments) := by
  unfold renderArguments
  split
  next hnone =>
      subst hnone
      exact .absent
  next => exact .present (layout_of_expressible h.each) h.unnamed

theorem renderDirective_layout (hname : IsName name) (h : ExpressibleArguments arguments) :
    DirectiveLayout name arguments (renderDirective name arguments) :=
  .mk hname h.layout

/-- A doubled at sign is read as one; every other character stands for itself. -/
theorem escapeContent_layout (chars : Bytes) : ContentLayout chars (escapeContent chars) := by
  unfold escapeContent
  induction chars with
  | nil => exact .nil
  | cons b chars ih =>
      rw [List.flatMap_cons]
      split
      next hat =>
          subst hat
          exact .escaped ih
      next hat => exact .plain hat ih

/-- The parser drops the newline that is printed behind a content, and nothing else. -/
theorem dropFinalNewline_contentChars (h : ExpressibleContent content) :
    dropFinalNewline (contentChars content) = content := by
  unfold contentChars dropFinalNewline
  split
  next => rw [if_pos List.getLast?_concat, List.dropLast_concat]
  next hlong =>
      have hfull : content.length = 8191 := Nat.le_antisymm h.limit (Nat.lt_of_not_le hlong)
      rw [if_neg (h.full hfull)]

/-- The content and the newline behind it have their room in the parser's buffer. -/
theorem length_contentChars (h : ExpressibleContent content) :
    1 ≤ (contentChars content).length ∧ (contentChars content).length ≤ 8191 := by
  have hlimit := h.limit
  unfold contentChars
  split
  next hshort =>
      rw [List.length_append, List.length_singleton]
      omega
  next hlong => omega

/-- What is printed of a requirement is laid out as the parser expects it. -/
theorem AstRequirement.Expressible.layout (h : requirement.Expressible) :
    RequirementLayout requirement requirement.render := by
  have hdirective := renderDirective_layout h.name h.arguments
  obtain ⟨name, arguments, content⟩ := requirement
  unfold AstRequirement.render
  cases content with
  | none =>
      rw [Option.elim_none, List.append_nil]
      exact .bare hdirective
  | some content =>
      have hcontent := h.content content rfl
      obtain ⟨hpositive, hlimit⟩ := length_contentChars hcontent
      have hlayout := RequirementLayout.withContent hdirective
        (escapeContent_layout (contentChars content)) hpositive hlimit
      rw [dropFinalNewline_contentChars hcontent] at hlayout
      exact hlayout

theorem requirements_layout (h : ∀ requirement ∈ requirements, requirement.Expressible) :
    RequirementListLayout requirements (requirements.flatMap AstRequirement.render) := by
  induction requirements with
  | nil => exact .nil
  | cons requirement requirements ih =>
      obtain ⟨hrequirement, hrequirements⟩ := List.forall_mem_cons.mp h
      rw [List.flatMap_cons]
      exact .cons hrequirement.layout hrequirement.notEnd (ih hrequirements)

/-- What is printed of a test is laid out as the parser expects it. -/
theorem AstTest.Expressible.layout (h : test.Expressible) : TestLayout test test.render := by
  have hnone : ExpressibleArguments [] := ⟨nofun, Nat.zero_le 1⟩
  exact .mk (renderDirective_layout (by decide) h.arguments) (requirements_layout h.requirements)
    h.positive h.limit (renderDirective_layout (by decide) hnone)

/-- What is printed of a list of tests is laid out as the parser expects it. -/
theorem renderSuite_layout (h : ∀ test ∈ tests, test.Expressible) :
    SuiteLayout tests (renderSuite tests) := by
  unfold renderSuite
  induction tests with
  | nil => exact .nil
  | cons test tests ih =>
      obtain ⟨htest, htests⟩ := List.forall_mem_cons.mp h
      rw [List.flatMap_cons]
      exact .test htest.layout (ih htests)

theorem clean_quoted {value : Bytes} (h : 255 ∉ value) : 255 ∉ quoted value := by
  unfold quoted
  simp [h, chQuote]

theorem IsName.clean (h : IsName name) : 255 ∉ name := by
  cases name with
  | nil => exact List.not_mem_nil
  | cons b rest =>
      obtain ⟨hstart, hrest, -⟩ := h
      rintro (_ | ⟨_, hmem⟩)
      · exact absurd hstart (by decide)
      · exact absurd (hrest 255 hmem) (by decide)

theorem AstArgument.Expressible.clean_render (h : argument.Expressible) :
    255 ∉ argument.render := by
  have hvalue := clean_quoted h.clean
  obtain ⟨name, value⟩ := argument
  unfold AstArgument.render
  cases name with
  | none => exact hvalue
  | some name =>
      have hname := (h.name name rfl).clean
      rw [Option.elim_some, List.mem_append, List.mem_append]
      rintro ((hmem | hmem) | hmem)
      · exact hname hmem
      · exact absurd hmem (by decide)
      · exact hvalue hmem

theorem clean_renderDirective (hname : IsName name) (h : ExpressibleArguments arguments) :
    255 ∉ renderDirective name arguments := by
  have harguments : 255 ∉ renderArguments arguments := by
    unfold renderArguments
    split
    · exact List.not_mem_nil
    · rw [List.mem_cons, List.mem_append, List.mem_flatMap]
      rintro (hmem | ⟨argument, hargument, hmem⟩ | hmem)
      · exact absurd hmem (by decide)
      · rcases List.mem_append.mp hmem with hmem | hmem
        · exact (h.each argument hargument).clean_render hmem
        · exact absurd hmem (by decide)
      · exact absurd hmem (by decide)
  unfold renderDirective
  rw [List.mem_cons, List.mem_append, List.mem_append]
  rintro (hmem | hmem | hmem | hmem)
  · exact absurd hmem (by decide)
  · exact hname.clean hmem
  · exact harguments hmem
  · exact absurd hmem (by decide)

theorem clean_escapeContent (h : 255 ∉ chars) : 255 ∉ escapeContent chars := by
  unfold escapeContent
  rw [List.mem_flatMap]
  rintro ⟨b, hb, hmem⟩
  split at hmem
  · exact absurd hmem (by decide)
  · rw [List.mem_singleton] at hmem
    exact h (hmem ▸ hb)

theorem clean_contentChars (h : 255 ∉ content) : 255 ∉ contentChars content := by
  unfold contentChars
  split
  · rw [List.mem_append]
    rintro (hmem | hmem)
    · exact h hmem
    · exact absurd hmem (by decide)
  · exact h

theorem AstRequirement.Expressible.clean_render (h : requirement.Expressible) :
    255 ∉ requirement.render := by
  have hcontent : 255 ∉ requirement.content.elim [] fun content =>
      escapeContent (contentChars content) := by
    cases hcontent : requirement.content with
    | none => exact List.not_mem_nil
    | some content => exact clean_escapeContent (clean_contentChars (h.content content hcontent).clean)
  unfold AstRequirement.render
  rw [List.mem_append]
  rintro (hmem | hmem)
  · exact clean_renderDirective h.name h.arguments hmem
  · exact hcontent hmem

/-- No byte 255 is printed, which the tokenizer would take for the end of the file. -/
theorem clean_renderSuite (h : ∀ test ∈ tests, test.Expressible) : 255 ∉ renderSuite tests := by
  have hnone : ExpressibleArguments [] := ⟨nofun, Nat.zero_le 1⟩
  unfold renderSuite AstTest.render
  simp only [List.mem_flatMap, List.mem_append]
  rintro ⟨test, htest, hmem | ⟨requirement, hrequirement, hmem⟩ | hmem⟩
  · exact clean_renderDirective (by decide) (h test htest).arguments hmem
  · exact ((h test htest).requirements requirement hrequirement).clean_render hmem
  · exact clean_renderDirective (by decide) hnone hmem

end Layouts

section Expressible

variable {argument : AstArgument} {arguments : List AstArgument} {requirement : AstRequirement}
  {requirements : List AstRequirement} {test : AstTest} {tests : List AstTest}
  {name chars text : Bytes}

theorem clean_parts {first second : Bytes} (clean : 255 ∉ first ++ second) :
    255 ∉ first ∧ 255 ∉ second := by
  rw [List.mem_append, not_or] at clean
  exact clean

/-- An argument that has been read is one that a text can give. -/
theorem ArgumentLayout.expressible (h : ArgumentLayout argument text) (clean : 255 ∉ text) :
    argument.Expressible := by
  cases h with
  | unnamed hvalue => exact ⟨nofun, hvalue, fun hmem => clean (by simp [quoted, hmem])⟩
  | named hname hvalue =>
      refine ⟨?_, hvalue, fun hmem => clean (by simp [quoted, hmem])⟩
      rintro name ⟨⟩
      exact hname

theorem ArgumentListLayout.expressible (h : ArgumentListLayout arguments text)
    (clean : 255 ∉ text) : ∀ argument ∈ arguments, argument.Expressible := by
  induction h with
  | nil => exact nofun
  | last _ hargument =>
      rw [List.forall_mem_singleton]
      exact hargument.expressible (clean_parts clean).2
  | more _ hargument _ ih =>
      obtain ⟨hfirst, hrest⟩ := clean_parts (clean_parts clean).2
      exact List.forall_mem_cons.mpr
        ⟨hargument.expressible hfirst, ih (List.not_mem_of_not_mem_cons hrest)⟩

/-- The limit of one unnamed argument is kept by every list that has been read. -/
theorem OptionalArgumentsLayout.expressible (h : OptionalArgumentsLayout arguments text)
    (clean : 255 ∉ text) : ExpressibleArguments arguments := by
  cases h with
  | absent => exact ⟨nofun, Nat.zero_le 1⟩
  | present harguments hunnamed =>
      have hinner := (clean_parts (List.not_mem_of_not_mem_cons clean)).1
      exact ⟨harguments.expressible hinner, hunnamed⟩

theorem DirectiveLayout.expressible (h : DirectiveLayout name arguments text)
    (clean : 255 ∉ text) : IsName name ∧ ExpressibleArguments arguments := by
  cases h with
  | mk hname harguments =>
      have htext := (clean_parts (List.not_mem_of_not_mem_cons clean)).2
      exact ⟨hname, harguments.expressible (clean_parts htext).1⟩

/-- Every character of a content stands in its text. -/
theorem ContentLayout.chars_subset (h : ContentLayout chars text) : chars ⊆ text := by
  induction h with
  | nil => exact List.Subset.refl []
  | plain _ _ ih => exact List.cons_subset_cons _ ih
  | escaped _ ih => exact List.cons_subset_cons _ (List.subset_cons_of_subset _ ih)
  | lone _ _ _ ih => exact List.cons_subset_cons _ ih

/-- Dropping the final newline makes room, so that only a content without it fills the buffer. -/
theorem expressible_dropFinalNewline (hlimit : chars.length ≤ 8191) (clean : 255 ∉ chars) :
    ExpressibleContent (dropFinalNewline chars) := by
  unfold dropFinalNewline
  split
  next hnewline =>
      have hpos : 0 < chars.length := by
        rcases List.eq_nil_or_concat chars with rfl | ⟨_, _, rfl⟩
        · cases hnewline
        · simp
      refine ⟨?_, ?_, fun hmem => clean (List.dropLast_subset chars hmem)⟩
      · rw [List.length_dropLast]
        omega
      · rw [List.length_dropLast]
        omega
  next hnewline => exact ⟨hlimit, fun _ => hnewline, clean⟩

/-- A requirement that has been read is one that a text can give, but for the end of the test. -/
theorem RequirementLayout.expressible (h : RequirementLayout requirement text)
    (hnotEnd : requirement.name ≠ ascii "endtest") (clean : 255 ∉ text) :
    requirement.Expressible := by
  cases h with
  | bare hdirective =>
      obtain ⟨hname, harguments⟩ := hdirective.expressible clean
      exact ⟨hname, hnotEnd, harguments, nofun⟩
  | withContent hdirective hcontent _ hlimit =>
      obtain ⟨hfirst, hbody⟩ := clean_parts clean
      obtain ⟨hname, harguments⟩ := hdirective.expressible hfirst
      refine ⟨hname, hnotEnd, harguments, ?_⟩
      rintro content ⟨⟩
      exact expressible_dropFinalNewline hlimit fun hmem => hbody (hcontent.chars_subset hmem)

theorem RequirementListLayout.expressible (h : RequirementListLayout requirements text)
    (clean : 255 ∉ text) : ∀ requirement ∈ requirements, requirement.Expressible := by
  induction h with
  | nil => exact nofun
  | cons hrequirement hnotEnd _ ih =>
      obtain ⟨hfirst, hrest⟩ := clean_parts clean
      exact List.forall_mem_cons.mpr ⟨hrequirement.expressible hnotEnd hfirst, ih hrest⟩

/-- A test that has been read is one that a text can give. -/
theorem TestLayout.expressible (h : TestLayout test text) (clean : 255 ∉ text) :
    test.Expressible := by
  cases h with
  | mk hprolog hbody hpositive hlimit _ =>
      obtain ⟨hfirst, hrest⟩ := clean_parts clean
      exact ⟨(hprolog.expressible hfirst).2, hbody.expressible (clean_parts hrest).1, hpositive,
        hlimit⟩

theorem SuiteLayout.expressible (h : SuiteLayout tests text) (clean : 255 ∉ text) :
    ∀ test ∈ tests, test.Expressible := by
  induction h with
  | nil => exact nofun
  | newline _ ih => exact ih (List.not_mem_of_not_mem_cons clean)
  | test htest _ ih =>
      obtain ⟨hfirst, hrest⟩ := clean_parts clean
      exact List.forall_mem_cons.mpr ⟨htest.expressible hfirst, ih hrest⟩

end Expressible

/-- The files without a byte 255 give the expressible trees and no others, and the text of an
expressible tree is read as this tree. -/
theorem parseTestSuite_image (tests : List AstTest) :
    ((∃ source, 255 ∉ source ∧ parseTestSuite source = .ok tests) ↔
      ∀ test ∈ tests, test.Expressible) ∧
    ((∀ test ∈ tests, test.Expressible) ↔
      255 ∉ renderSuite tests ∧ parseTestSuite (renderSuite tests) = .ok tests) := by
  have hread : ∀ source, 255 ∉ source → parseTestSuite source = .ok tests →
      ∀ test ∈ tests, test.Expressible := by
    intro source clean hparse
    exact (((parseTestSuite_iff_testsText source tests).mp hparse).layout clean).expressible clean
  have hrender : (∀ test ∈ tests, test.Expressible) →
      255 ∉ renderSuite tests ∧ parseTestSuite (renderSuite tests) = .ok tests := by
    intro hexpressible
    have clean := clean_renderSuite hexpressible
    exact ⟨clean, (parseTestSuite_iff_testsText _ tests).mpr
      ((renderSuite_layout hexpressible).piece clean)⟩
  constructor
  · constructor
    · rintro ⟨source, clean, hparse⟩
      exact hread source clean hparse
    · intro hexpressible
      exact ⟨renderSuite tests, hrender hexpressible⟩
  · constructor
    · exact hrender
    · rintro ⟨clean, hparse⟩
      exact hread _ clean hparse

example : renderSuite [⟨[⟨none, ascii "sum"⟩], [⟨ascii "given", [], some (ascii "1@2")⟩]⟩] =
    ascii "@test(\"sum\",)\n@given\n1@@2\n@endtest\n" := by decide

end JCUnit
