import JCUnit.Frontend.Lexing
import JCUnit.Frontend.Parser

/-!
# Layouts of a test suite

The language of test files, stated without the parser: each predicate relates a
piece of the tree to the texts that lay it out.
-/

namespace JCUnit

def IsBlanks (blanks : Bytes) : Prop := ∀ b ∈ blanks, isWhitespaceChar b = true

/-- A string between its quotes. -/
def quoted (value : Bytes) : Bytes := chQuote :: (value ++ [chQuote])

inductive ArgumentLayout : AstArgument → Bytes → Prop
  | unnamed {value : Bytes} (hvalue : IsString value) :
      ArgumentLayout ⟨none, value⟩ (quoted value)
  | named {name value : Bytes} (hname : IsName name) (hvalue : IsString value) :
      ArgumentLayout ⟨some name, value⟩ (name ++ chEquals :: quoted value)

/-- What stands between the parentheses of a directive. The last comma is optional. -/
inductive ArgumentListLayout : List AstArgument → Bytes → Prop
  | nil {blanks : Bytes} (hblanks : IsBlanks blanks) : ArgumentListLayout [] blanks
  | last {blanks text : Bytes} {argument : AstArgument} (hblanks : IsBlanks blanks)
      (hargument : ArgumentLayout argument text) :
      ArgumentListLayout [argument] (blanks ++ text)
  | more {blanks text rest : Bytes} {argument : AstArgument} {arguments : List AstArgument}
      (hblanks : IsBlanks blanks) (hargument : ArgumentLayout argument text)
      (harguments : ArgumentListLayout arguments rest) :
      ArgumentListLayout (argument :: arguments) (blanks ++ (text ++ chComma :: rest))

def unnamedCount (arguments : List AstArgument) : Nat :=
  arguments.countP fun argument => argument.name.isNone

inductive OptionalArgumentsLayout : List AstArgument → Bytes → Prop
  | absent : OptionalArgumentsLayout [] []
  | present {inner : Bytes} {arguments : List AstArgument}
      (harguments : ArgumentListLayout arguments inner) (hunnamed : unnamedCount arguments ≤ 1) :
      OptionalArgumentsLayout arguments (chLeftParen :: (inner ++ [chRightParen]))

/-- A directive line with the newline at its end. -/
inductive DirectiveLayout : Bytes → List AstArgument → Bytes → Prop
  | mk {name text : Bytes} {arguments : List AstArgument} (hname : IsName name)
      (harguments : OptionalArgumentsLayout arguments text) :
      DirectiveLayout name arguments (chAt :: (name ++ (text ++ [chNewline])))

/-- The characters of a content and the text that gives them: an at sign is doubled, or
single where neither an at sign nor a letter comes next. -/
inductive ContentLayout : Bytes → Bytes → Prop
  | nil : ContentLayout [] []
  | plain {b : Byte} {chars text : Bytes} (hb : b ≠ chAt) (htext : ContentLayout chars text) :
      ContentLayout (b :: chars) (b :: text)
  | escaped {chars text : Bytes} (htext : ContentLayout chars text) :
      ContentLayout (chAt :: chars) (chAt :: chAt :: text)
  | lone {b : Byte} {chars text : Bytes} (hat : b ≠ chAt) (hname : isStartNameChar b = false)
      (htext : ContentLayout chars (b :: text)) :
      ContentLayout (chAt :: chars) (chAt :: b :: text)

/-- A content loses the one newline at its end. -/
def dropFinalNewline (chars : Bytes) : Bytes :=
  if chars.getLast? = some chNewline then chars.dropLast else chars

inductive RequirementLayout : AstRequirement → Bytes → Prop
  | bare {name text : Bytes} {arguments : List AstArgument}
      (hdirective : DirectiveLayout name arguments text) :
      RequirementLayout ⟨name, arguments, none⟩ text
  | withContent {name text chars body : Bytes} {arguments : List AstArgument}
      (hdirective : DirectiveLayout name arguments text) (hcontent : ContentLayout chars body)
      (hpositive : 1 ≤ chars.length) (hlimit : chars.length ≤ 8191) :
      RequirementLayout ⟨name, arguments, some (dropFinalNewline chars)⟩ (text ++ body)

inductive RequirementListLayout : List AstRequirement → Bytes → Prop
  | nil : RequirementListLayout [] []
  | cons {requirement : AstRequirement} {requirements : List AstRequirement} {text rest : Bytes}
      (hrequirement : RequirementLayout requirement text)
      (hname : requirement.name ≠ ascii "endtest")
      (hrequirements : RequirementListLayout requirements rest) :
      RequirementListLayout (requirement :: requirements) (text ++ rest)

inductive TestLayout : AstTest → Bytes → Prop
  | mk {arguments : List AstArgument} {requirements : List AstRequirement}
      {prolog body epilog : Bytes} (hprolog : DirectiveLayout (ascii "test") arguments prolog)
      (hbody : RequirementListLayout requirements body)
      (hpositive : 1 ≤ requirements.length) (hlimit : requirements.length ≤ 4)
      (hepilog : DirectiveLayout (ascii "endtest") [] epilog) :
      TestLayout ⟨arguments, requirements⟩ (prolog ++ (body ++ epilog))

/-- The tests of a file in order, with newlines before, between and after them. -/
inductive SuiteLayout : List AstTest → Bytes → Prop
  | nil : SuiteLayout [] []
  | newline {tests : List AstTest} {text : Bytes} (htests : SuiteLayout tests text) :
      SuiteLayout tests (chNewline :: text)
  | test {test : AstTest} {tests : List AstTest} {text rest : Bytes}
      (htest : TestLayout test text) (htests : SuiteLayout tests rest) :
      SuiteLayout (test :: tests) (text ++ rest)

section NextToken

variable {text rest : Bytes}

theorem NameEnds.cons {b : Byte} (hb : isNameChar b = false) : NameEnds (b :: rest) := by
  intro c hc
  cases hc
  exact hb

theorem OptionalArgumentsLayout.nameEnds {arguments : List AstArgument}
    (h : OptionalArgumentsLayout arguments text) (rest : Bytes) :
    NameEnds (text ++ chNewline :: rest) := by
  cases h with
  | absent => exact NameEnds.cons (b := chNewline) rfl
  | present _ _ => exact NameEnds.cons (b := chLeftParen) rfl

end NextToken

end JCUnit
