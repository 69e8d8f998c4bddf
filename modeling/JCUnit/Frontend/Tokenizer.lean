import JCUnit.Text.FatalError

/-!
# The tokenizer

An `int` character is a byte, or `none` for `EOF`. The bytes pushed back travel
through a `char` buffer: byte 255 comes out of it as `(char) 255`, which is -1
and equals `EOF`. Any other byte above 127 comes out negative, but no test or
conversion of the tokenizer and the parser can tell it from the byte itself.
The two push-back buffers are stacks with their top first.
-/

namespace JCUnit

inductive Token
  | eof
  | newline
  | directive (text : Bytes)
  | punctuator (ch : Byte)
  | string (text : Bytes)
  | character (ch : Byte)
  | name (text : Bytes)
deriving DecidableEq

/-- `content.string` of a token. Only directives, names and strings have one. -/
def Token.text : Token → Bytes
  | .directive text => text
  | .name text => text
  | .string text => text
  | _ => []

inductive TokenizerMode
  | none
  | directiveAndText
deriving DecidableEq

def maxTokenBufferSize : Nat := 4
def maxCharBufferSize : Nat := 4
def maxNameLen : Nat := 256
def maxStringLen : Nat := 1024

def chNewline : Byte := 10
def chQuote : Byte := 34
def chLeftParen : Byte := 40
def chRightParen : Byte := 41
def chComma : Byte := 44
def chEquals : Byte := 61
def chAt : Byte := 64

def isChar (ch : Byte) : Bool :=
  (97 ≤ ch && ch ≤ 122) || (65 ≤ ch && ch ≤ 90)

def isStartNameChar (ch : Byte) : Bool := isChar ch

def isNameChar (ch : Byte) : Bool := isChar ch || ch == 95

def isWhitespaceChar (ch : Byte) : Bool :=
  ch == 32 || ch == 9 || ch == 11 || ch == 12

/-- `source` holds the bytes of the file that `fgetc` has not delivered yet. -/
structure TokenizerContext where
  source : Bytes
  tokenBuffer : List Token
  charBuffer : Bytes
  mode : TokenizerMode
deriving DecidableEq

/-- No fewer than the bytes that are still to be delivered, those of the buffered
tokens included. A loop that consumes a byte in each round is over after that many. -/
def TokenizerContext.unread (context : TokenizerContext) : Nat :=
  (context.tokenBuffer.map fun token => token.text.length + 2).sum +
    context.charBuffer.length + context.source.length

def initTokenizerContext (source : Bytes) : TokenizerContext :=
  ⟨source, [], [], .none⟩


abbrev TokM := EStateM Halt TokenizerContext

def fatal {α : Type} (message : Bytes) : TokM α :=
  throw (fatalError message)

/-- The `int` that reading a pushed-back `char` gives. -/
def ofCharBuffer (b : Byte) : Option Byte :=
  if b = 255 then none else some b

def getOneChar : TokM (Option Byte) := fun context =>
  match context.charBuffer with
  | b :: rest => .ok (ofCharBuffer b) { context with charBuffer := rest }
  | [] =>
      match context.source with
      | b :: rest => .ok (some b) { context with source := rest }
      | [] => .ok none context

def ungetOneChar (ch : Option Byte) : TokM Unit := fun context =>
  if context.charBuffer.length ≥ maxCharBufferSize then
    fatal (ascii "The char buffer is overflow!") context
  else
    match ch with
    | some b => .ok () { context with charBuffer := b :: context.charBuffer }
    | none => .ok () context

def peekOneChar : TokM (Option Byte) := do
  let ch ← getOneChar
  ungetOneChar ch
  return ch

/-- The loop of `get_one_name`, with room for `room` more bytes below the limit. -/
def getOneNameLoop : Nat → Bytes → Byte → TokM (Bytes × Option Byte)
  | 0, buffer, ch =>
      fatal (ascii "Too long name '" ++ (buffer ++ [ch]) ++ ascii "' exceed 256 characters!")
  | room + 1, buffer, ch => do
      let next ← getOneChar
      match next with
      | some b =>
          if isNameChar b then getOneNameLoop room (buffer ++ [ch]) b
          else return (buffer ++ [ch], next)
      | none => return (buffer ++ [ch], next)

def getOneName (ch : Byte) (kind : Bytes → Token) : TokM Token := do
  let (buffer, next) ← getOneNameLoop (maxNameLen - 1) [] ch
  ungetOneChar next
  return kind buffer

/-- The loop of `get_one_string`, with room for `room` more bytes in the buffer. -/
def getOneStringLoop : Nat → Bytes → Option Byte → TokM Bytes
  | 0, _, _ => fatal (ascii "Too long string!")
  | _ + 1, _, none => fatal (ascii "Unterminated string!")
  | room + 1, buffer, some ch =>
      if ch = chQuote then return buffer
      else if ch = chNewline then fatal (ascii "Newline inside the string!")
      else do
        let next ← getOneChar
        getOneStringLoop room (buffer ++ [ch]) next

def getOneString : TokM Token := do
  let ch ← getOneChar
  let text ← getOneStringLoop maxStringLen [] ch
  return .string text

/-- The part of `get_one_token` behind an at sign. -/
def afterAt : TokM Token := do
  let next ← getOneChar
  match next with
  | some b =>
      if isStartNameChar b then getOneName b .directive
      else if b = chAt then return .character chAt
      else
        ungetOneChar next
        return .character chAt
  | none =>
      ungetOneChar next
      return .character chAt

/-- The part of `get_one_token` that `TOKENIZER_MODE_DIRECTIVE_AND_TEXT` skips. -/
def otherToken (ch : Byte) : TokM Token :=
  if ch = chNewline then return .newline
  else if ch = chComma then return .punctuator ch
  else if ch = chLeftParen then return .punctuator ch
  else if ch = chRightParen then return .punctuator ch
  else if ch = chEquals then return .punctuator ch
  else if ch = chQuote then getOneString
  else if isStartNameChar ch then getOneName ch .name
  else return .character ch

def lexToken : TokM Token := do
  let ch ← getOneChar
  match ch with
  | none => return .eof
  | some b =>
      if b = chAt then afterAt
      else do
        let context ← get
        if context.mode = .directiveAndText then return .character b
        else otherToken b

def getOneToken : TokM Token := fun context =>
  match context.tokenBuffer with
  | token :: rest => .ok token { context with tokenBuffer := rest }
  | [] => lexToken context

def ungetOneToken (token : Token) : TokM Unit := fun context =>
  if context.tokenBuffer.length ≥ maxTokenBufferSize then
    fatal (ascii "The token buffer is overflow!") context
  else if token = .eof then .ok () context
  else .ok () { context with tokenBuffer := token :: context.tokenBuffer }

def peekOneToken : TokM Token := do
  let token ← getOneToken
  ungetOneToken token
  return token

def setMode (mode : TokenizerMode) : TokM Unit := fun context =>
  .ok () { context with mode }

def Token.isDirective : Token → Bool
  | .directive _ => true
  | _ => false

/-- `content.ch` of a token. The bytes of a string token's pointer are never read as one. -/
def Token.ch : Token → Byte
  | .newline => chNewline
  | .punctuator ch => ch
  | .character ch => ch
  | _ => 255


end JCUnit
