import Lila.Tree.Basic
import Lila.Tree.ParserState
import Lila.Tree.Precedence

/-!
# From tokens to a tree

One function per production of the grammar. Each is given `nested`, the parser
for the expressions inside it, and `expression` closes the circle: an expression
inside another one starts at a later token, so that the tokens left bound how
deep they lie in each other. The loops are bounded the same way, by the list of
tokens that were left when they began; where that list is empty the input has
ended, and they do what is to be done at its end.

A name is looked up where it is used, and bound after the expression that gives
its value. Blocks and definitions are scopes.
-/

namespace Lila

namespace Parser

/-! ## Bindings -/

/-- The parameters after an opening parenthesis, `seen` being those so far. -/
def parameterList : List Lexeme → List String → Parser (List String)
  | [], _ => unexpected .argumentName
  | _ :: left, seen => do
      match ← current with
      | some (.ident param) =>
          if param ∈ seen then fail (.repeatedParameter param)
          else
            advance
            match ← current with
            | some .comma => advance; parameterList left (seen ++ [param])
            | some .parenClose => advance; return seen ++ [param]
            | some (.ident _) => fail .surplusArgument
            | _ => unexpected .parameterSeparator
      | some .parenClose | some .comma => fail .missingArgument
      | _ => unexpected .argumentName

def parameters : Parser (List String) := do
  if (← current) = some .parenOpen then
    advance
    parameterList (← get).rest []
  else return []

/-- The name of a new binding, which must be free in the innermost scope. -/
def newName (expected : Expectation) : Parser String := do
  let (name, span) ← name expected
  if (← get).scopes.isDefinedHere name then throw ⟨.alreadyDefined name, some span⟩
  else return name

def value (nested : Parser Tree) : Parser Tree := do
  advance
  let name ← newName .valueName
  expect .assign
  let expr ← nested
  define name []
  return .value name expr

def definition (nested : Parser Tree) : Parser Tree := do
  advance
  let name ← newName .definitionName
  let (params, body) ← inScope name do
    let params ← parameters
    params.forM fun param => define param []
    expect .assign
    return (params, ← nested)
  define name params
  return .definition name params body

/-! ## Statements -/

def statement (nested : Parser Tree) : Parser Tree := do
  match ← current with
  | some .kwDef => definition nested
  | some .kwVal => value nested
  | _ => nested

/-- Checks that a statement is followed by a line break, or by the end of what
it stands in. -/
def endOfStatement (braced : Bool) : Parser Unit := do
  match ← current, braced with
  | none, _ | some .newline, _ | some .blockClose, true => return
  | _, _ => unexpected .statementEnd

/-- The end of the input among statements, which leaves a block open. -/
def endOfInput (braced : Bool) : Parser (List Tree) :=
  if braced then unexpected (.token .blockClose) else return []

def statements (nested : Parser Tree) (braced : Bool) : List Lexeme → Parser (List Tree)
  | [] => endOfInput braced
  | _ :: left => do
      match ← current, braced with
      | none, _ => endOfInput braced
      | some .newline, _ => advance; statements nested braced left
      | some .blockClose, true => return []
      | _, _ =>
          let first ← statement nested
          endOfStatement braced
          return first :: (← statements nested braced left)

/-! ## Expressions -/

/-- The tree of a block with the given elements. A block of one element is that
element. -/
def blockOf (depth : Nat) (body : List Tree) : Except ParseError.Cause Tree :=
  match body, body.getLast?.any Tree.isExpr with
  | [], _ => .error .emptyBlock
  | _, false => .error .blockWithoutValue
  | [element], true => .ok element
  | _, true => .ok (.block depth body)

def block (nested : Parser Tree) (opening : Span) : Parser Tree := do
  advance
  let (depth, body) ← inBlock fun index depth => do
    let body ← inScope ("anon" ++ toString index) do
      let body ← statements nested true (← get).rest
      advance
      return body
    return (depth, body)
  match blockOf depth body with
  | .ok tree => return tree
  | .error cause => throw ⟨cause, some opening⟩

def group (nested : Parser Tree) : Parser Tree := do
  advance
  let expr ← nested
  expect .parenClose
  return expr

def argumentList (nested : Parser Tree) : List Lexeme → Parser (List Tree)
  | [] => unexpected .argument
  | _ :: left => do
      match ← current with
      | some .parenClose | some .comma => fail .missingArgument
      | none => unexpected .argument
      | _ =>
          let first ← nested
          match ← current with
          | some .comma => advance; return first :: (← argumentList nested left)
          | some .parenClose => advance; return [first]
          | some (.number _) | some (.ident _) | some .parenOpen | some .blockOpen =>
              fail .surplusArgument
          | _ => unexpected .argumentSeparator

def arguments (nested : Parser Tree) : Parser (List Tree) := do
  advance
  argumentList nested (← get).rest

def call (nested : Parser Tree) (name : String) : Parser Tree := do
  advance
  if (← current) = some .parenOpen then return .call name (← arguments nested)
  else return .call name []

def primary (nested : Parser Tree) : Parser Tree := do
  match (← get).rest with
  | ⟨_, .number value⟩ :: _ => advance; return .number value
  | ⟨span, .blockOpen⟩ :: _ => block nested span
  | ⟨_, .parenOpen⟩ :: _ => group nested
  | ⟨_, .ident name⟩ :: _ =>
      let scopes := (← get).scopes
      if (scopes.lookup name).isNone then fail (.unknownName name scopes.path)
      else call nested name
  | _ => unexpected .primary

def bindsTighter (than : Nat) : Parser Bool := do
  match ← current with
  | some (.binop op) => return than < precedence op
  | _ => return false

/-- Takes operators of at least the given precedence, with their operands, into
the operand on their left. An operator that binds more tightly than the one
before it has that one's right operand as its left one. -/
def operators (nested : Parser Tree) : List Lexeme → Tree → Nat → Parser Tree
  | [], lhs, _ => return lhs
  | _ :: left, lhs, least => do
      match ← current with
      | some (.binop op) =>
          if precedence op < least then return lhs
          else
            advance
            let operand ← primary nested
            let tighter ← bindsTighter (precedence op)
            let rhs ←
              if tighter then operators nested left operand (precedence op + 1) else pure operand
            operators nested left (.binary op lhs rhs) least
      | _ => return lhs

def expressionAround (nested : Parser Tree) : Parser Tree := do
  let lhs ← primary nested
  operators nested (← get).rest lhs 0

/-- An expression in which others are nested at most as deep as the list is long. -/
def expressionWithin : List Lexeme → Parser Tree
  | [] => unexpected .primary
  | _ :: left => expressionAround (expressionWithin left)

def expression : Parser Tree := do
  expressionWithin (← get).rest

/-! ## Programs -/

def programOf (body : List Tree) : Except ParseError.Cause Tree :=
  match body, body.getLast?.any Tree.isExpr with
  | [], _ => .error .emptyProgram
  | _, false => .error .programWithoutValue
  | _, true => .ok (.block 0 body)

def program : Parser Tree := do
  let body ← statements expression false (← get).rest
  match programOf body with
  | .ok tree => return tree
  | .error cause => throw ⟨cause, none⟩

end Parser

def parseRun (lexemes : List Lexeme) : EStateM.Result ParseError Parser.State Tree :=
  Parser.program { rest := lexemes }

/-- The top level block of the program that the tokens form. -/
def parse (lexemes : List Lexeme) : Except ParseError Tree :=
  match parseRun lexemes with
  | .ok tree _ => .ok tree
  | .error e _ => .error e

end Lila
