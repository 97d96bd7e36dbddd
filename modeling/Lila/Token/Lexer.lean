import Lila.Number.Literal
import Lila.Text.Blank
import Lila.Token.Basic

/-!
# From text to tokens

A lexer is a text that is read from the front, with its position and the number
of open brackets of each kind. `next` skips trivia (white space within a line
and characters that belong to no token) and takes one token off; `run` calls it
until the text is used up. Each token is the longest one that starts where it
stands, with one exception: a point right behind an integer literal, with no
digit after it, is a token by itself.

A closing bracket with no open one of its kind is a failure, and so is a literal
that has no value. A text that starts with a digit always gives a literal that
has one. A lexer that has failed has nothing more to give.
-/

namespace Lila

/-! ## Characters -/

def isPunctuation (c : Char) : Bool :=
  let n := c.toNat
  (33 ≤ n && n ≤ 47) || (58 ≤ n && n ≤ 64) || (91 ≤ n && n ≤ 96) || (123 ≤ n && n ≤ 126)

/-- Punctuation that is always a token by itself. -/
def isDelimiter (c : Char) : Bool :=
  c == ',' || c == '{' || c == '}' || c == '(' || c == ')'

def isOperatorChar (c : Char) : Bool := isPunctuation c && !isDelimiter c

/-- Characters with no meaning to the language, white space apart. -/
def isUnrecognized (c : Char) : Bool := !Text.isBlank c && !c.isAlphanum && !isPunctuation c

/-- Characters that separate tokens and belong to none. -/
def isTrivia (c : Char) : Bool := (Text.isBlank c && c != '\n') || isUnrecognized c

/-! ## Failures and events -/

inductive LexError.Cause where
  | unopenedBlock
  | unopenedParen
  | malformedNumber (text : String)
deriving DecidableEq

structure LexError where
  cause : LexError.Cause
  span : Span
deriving DecidableEq

def LexError.message (e : LexError) : String :=
  match e.cause with
  | .unopenedBlock => "closing block when none is open"
  | .unopenedParen => "closing parens when none is open"
  | .malformedNumber text => s!"malformed number \"{text}\""

def LexError.display (e : LexError) : String := s!"{e.message} at {e.span.display}"

/-- What happens while a text is read: a token is found, or a character at a
byte offset is passed over because it has no meaning. -/
inductive LexEvent where
  | token (lexeme : Lexeme)
  | skipped (c : Char) (lo : Nat)
deriving DecidableEq

/-! ## The lexer -/

structure Lexer where
  rest : List Char
  offset : Nat := 0
  line : Nat := 1
  openBlocks : Nat := 0
  openParens : Nat := 0
  /-- The next character is the point behind an integer literal. -/
  loneDot : Bool := false
  failed : Bool := false
  /-- Newest first. -/
  events : List LexEvent := []
deriving DecidableEq

namespace Lexer

def ofString (source : String) : Lexer := { rest := source.toList }

def span (l : Lexer) (text : List Char) : Span :=
  ⟨l.offset, l.offset + byteLength text, l.line⟩

/-- The unrecognized characters of a text at a byte offset, newest first, in
front of earlier events. -/
def skipEvents : Nat → List Char → List LexEvent → List LexEvent
  | _, [], events => events
  | lo, c :: cs, events =>
      skipEvents (lo + c.utf8Size) cs (if isUnrecognized c then .skipped c lo :: events else events)

def skipTrivia (l : Lexer) : Lexer :=
  let trivia := l.rest.takeWhile isTrivia
  { l with
    rest := l.rest.dropWhile isTrivia
    offset := l.offset + byteLength trivia
    events := skipEvents l.offset trivia l.events }

/-- Takes `text` off the front as one token, with `rest` behind it. -/
def emit (l : Lexer) (token : Token) (text rest : List Char) : Lexeme × Lexer :=
  (⟨l.span text, token⟩,
    { l with rest := rest, offset := l.offset + byteLength text, loneDot := false })

def number (l : Lexer) : Except LexError (Lexeme × Lexer) :=
  let (text, rest, loneDot) := Literal.scan l.rest
  match Literal.value? text with
  | none => .error ⟨.malformedNumber (String.ofList text), l.span text⟩
  | some value =>
      let (lexeme, l) := l.emit (.number value) text rest
      .ok (lexeme, { l with loneDot := loneDot })

def wordToken (text : List Char) : Token :=
  if text = ['d', 'e', 'f'] then .kwDef
  else if text = ['v', 'a', 'l'] then .kwVal
  else .ident (String.ofList text)

def operatorToken (text : List Char) : Token :=
  if text = ['='] then .assign
  else if text = [':'] then .colon
  else .binop (String.ofList text)

def runOf (l : Lexer) (p : Char → Bool) (token : List Char → Token) : Lexeme × Lexer :=
  let text := l.rest.takeWhile p
  l.emit (token text) text (l.rest.dropWhile p)

/-- One token from a text whose first character `c` is no trivia. -/
def token (l : Lexer) (c : Char) (rest : List Char) : Except LexError (Lexeme × Lexer) :=
  let single (t : Token) (l : Lexer) := l.emit t [c] rest
  if l.loneDot then .ok (single (.binop (String.ofList [c])) l)
  else if c.isDigit then l.number
  else if c.isAlpha then .ok (l.runOf Char.isAlphanum wordToken)
  else
    match c with
    | '\n' =>
        let (lexeme, l) := single .newline l
        .ok (lexeme, { l with line := l.line + 1 })
    | ',' => .ok (single .comma l)
    | '{' => .ok (single .blockOpen { l with openBlocks := l.openBlocks + 1 })
    | '(' => .ok (single .parenOpen { l with openParens := l.openParens + 1 })
    | '}' =>
        match l.openBlocks with
        | 0 => .error ⟨.unopenedBlock, l.span [c]⟩
        | n + 1 => .ok (single .blockClose { l with openBlocks := n })
    | ')' =>
        match l.openParens with
        | 0 => .error ⟨.unopenedParen, l.span [c]⟩
        | n + 1 => .ok (single .parenClose { l with openParens := n })
    | _ => .ok (l.runOf isOperatorChar operatorToken)

/-- The next token or failure, nothing at the end and after a failure. -/
def next (l : Lexer) : Option (Except LexError Lexeme) × Lexer :=
  if l.failed then (none, l)
  else
    let l := l.skipTrivia
    match l.rest with
    | [] => (none, l)
    | c :: rest =>
        match l.token c rest with
        | .error e => (some (.error e), { l with failed := true })
        | .ok (lexeme, l) => (some (.ok lexeme), { l with events := .token lexeme :: l.events })

def take : Nat → Lexer → List (Option (Except LexError Lexeme))
  | 0, _ => []
  | n + 1, l => let (answer, l) := l.next; answer :: take n l

/-- Calls `next` to the end or to a failure, at most the given number of times,
and adds the tokens to `found`, newest first. -/
def runFrom : Nat → List Lexeme → Lexer → EStateM.Result LexError Lexer (List Lexeme)
  | 0, found, l => .ok found.reverse l
  | calls + 1, found, l =>
      match l.next with
      | (none, l) => .ok found.reverse l
      | (some (.error e), l) => .error e l
      | (some (.ok lexeme), l) => runFrom calls (lexeme :: found) l

/-- All tokens up to the end, or the failure, and the lexer after it. A token
takes one character at least, so that one more call than there are characters
reaches the end. -/
def run (l : Lexer) : EStateM.Result LexError Lexer (List Lexeme) :=
  runFrom (l.rest.length + 1) [] l

end Lexer

def tokenize (source : String) : Except LexError (List Lexeme) :=
  match (Lexer.ofString source).run with
  | .ok lexemes _ => .ok lexemes
  | .error e _ => .error e

end Lila
