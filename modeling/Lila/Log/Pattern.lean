import Lila.Text.Alphanumeric
import Lila.Text.Blank

/-!
# Patterns of field values

The value of a field is a number or a regular expression. Records are not matched
against it, but a value that is neither is refused. An expression is read here
for its form alone: every reader gives the height of what it has read, which is
bounded.

The classes and the case folding of Unicode are not at hand, so an expression
that asks for them is refused as well, and so is one without Unicode that matches
parts of characters. A value holds no closing brace, so there are no counted
repetitions and no escapes in braces.

Groups and bracketed classes are given the reader for those inside them. They lie
in each other no deeper than the text is long, and a loop takes one character at
least in each turn.
-/

namespace Lila.Log.Pattern

/-- Why a value is refused: it is no expression that can be built, or it has word
boundaries by Unicode. -/
inductive Fault where
  | unbuildable
  | wordBoundary
deriving DecidableEq

def Fault.message : Fault → String
  | .unbuildable => "error building NFA"
  | .wordBoundary =>
      "unsupported regex feature for DFAs: cannot build DFAs for regexes with Unicode word " ++
        "boundaries; switch to ASCII word boundaries, or heuristically enable Unicode word " ++
        "boundaries or use a different regex engine"

structure Flags where
  insensitive : Bool := false
  unicode : Bool := true
  /-- White space and comments are passed over. -/
  spaced : Bool := false
deriving DecidableEq

/-- Whether characters are folded by Unicode. Without Unicode only letters of ASCII
are folded. -/
def Flags.folding (f : Flags) : Bool := f.unicode && f.insensitive

structure State where
  rest : List Char
  flags : Flags := {}
  /-- The names of groups so far. -/
  names : List (List Char) := []
  /-- Whether there is a word boundary by Unicode. -/
  boundary : Bool := false
deriving DecidableEq

abbrev Reader := StateT State Option

/-! ## Heights -/

/-- Some parts side by side: how many, and the height of the tallest. -/
structure Tally where
  count : Nat := 0
  top : Nat := 0
deriving DecidableEq

def Tally.add (t : Tally) (height : Nat) : Tally := ⟨t.count + 1, max t.top height⟩

/-- The height of the whole, which has a level of its own if it has several parts. -/
def Tally.height (t : Tally) : Nat := if t.count ≤ 1 then t.top else t.top + 1

def heightLimit : Nat := 250

/-! ## Characters -/

def afterSpace : Bool → List Char → List Char
  | _, [] => []
  | true, c :: text => afterSpace (c != '\n') text
  | false, c :: text =>
      if Text.isBlank c then afterSpace false text
      else if c == '#' then afterSpace true text
      else c :: text

def skipSpace : Reader Unit :=
  modify fun s => if s.flags.spaced then { s with rest := afterSpace false s.rest } else s

def setRest (rest : List Char) : Reader Unit := modify fun s => { s with rest := rest }

def next : Reader Char := do
  match (← get).rest with
  | [] => failure
  | c :: rest => setRest rest; return c

def require (condition : Bool) : Reader Unit := if condition then return else failure

/-! ## Escapes -/

inductive Atom where
  /-- A character, which is written as a byte or not. -/
  | literal (c : Char) (byte : Bool)
  /-- The digits, the white space or the characters of words, or all others. -/
  | words (negated : Bool)
  | assertion (boundary : Bool)
deriving DecidableEq

def hexValue? (c : Char) : Option Nat :=
  if c.isDigit then some (c.toNat - '0'.toNat)
  else if 'a' ≤ c && c ≤ 'f' then some (c.toNat - 'a'.toNat + 10)
  else if 'A' ≤ c && c ≤ 'F' then some (c.toNat - 'A'.toNat + 10)
  else none

/-- A number of so many hexadecimal digits, behind those that write `value`. -/
def hexNumber : Nat → Nat → Reader Nat
  | 0, value => return value
  | digits + 1, value => do
      skipSpace
      match hexValue? (← next) with
      | some d => hexNumber digits (16 * value + d)
      | none => failure

def hexChar (digits : Nat) : Reader Char := do
  let n ← hexNumber digits 0
  require (decide n.isValidChar)
  return Char.ofNat n

def escape : Reader Atom := do
  let c ← next
  match c with
  | 'x' => return .literal (← hexChar 2) true
  | 'u' => return .literal (← hexChar 4) false
  | 'U' => return .literal (← hexChar 8) false
  | 'd' | 's' | 'w' => return .words false
  | 'D' | 'S' | 'W' => return .words true
  | 'a' => return .literal '\x07' false
  | 'f' => return .literal '\x0c' false
  | 't' => return .literal '\t' false
  | 'n' => return .literal '\n' false
  | 'r' => return .literal '\r' false
  | 'v' => return .literal '\x0b' false
  | 'A' | 'z' => return .assertion false
  | 'b' | 'B' | '<' | '>' => return .assertion true
  | c =>
      require (c.toNat < 0x80 && !c.isAlphanum)
      return .literal c false

/-! ## Bracketed classes -/

def classNames : List String :=
  ["alnum", "alpha", "ascii", "blank", "cntrl", "digit", "graph", "lower", "print", "punct",
    "space", "upper", "word", "xdigit"]

/-- A named class from the character behind its bracket on: whether it is negated,
and what follows it. -/
def namedClass? (text : List Char) : Option (Bool × List Char) :=
  match text with
  | ':' :: text =>
      let (negated, text) := match text with
        | '^' :: text => (true, text)
        | text => (false, text)
      let (name, text) := text.span (· != ':')
      match text with
      | ':' :: ']' :: text =>
          if classNames.contains (String.ofList name) then some (negated, text) else none
      | _ => none
  | _ => none

def firstVisible? : Bool → List Char → Option Char
  | _, [] => none
  | comment, c :: text =>
      if Text.isBlank c then firstVisible? comment text
      else if !comment && c == '#' then firstVisible? true text
      else some c

/-- Whether a hyphen in front of a text stands for itself and not for a range. -/
def isPlainHyphen (spaced : Bool) (text : List Char) : Bool :=
  let c := if spaced then (firstVisible? false text).or text.head? else text.head?
  c == some ']' || c == some '-'

def classAtom : Reader Atom := do
  let c ← next
  if c = '\\' then escape else return .literal c false

/-- Checks that an atom may stand in a class. A class is folded member by member, so
that one without members needs no folding. -/
def checkMember (a : Atom) : Reader Unit := do
  let flags := (← get).flags
  match a with
  | .literal c _ => require (!flags.folding && (flags.unicode || c.toNat < 0x80))
  | .words negated => require (!flags.unicode && !negated)
  | .assertion _ => failure

def classMember : Reader Unit := do
  let first ← classAtom
  skipSpace
  let s ← get
  match s.rest with
  | '-' :: rest =>
      if isPlainHyphen s.flags.spaced rest then checkMember first
      else
        setRest rest
        skipSpace
        match first, ← classAtom with
        | .literal lo b, .literal hi b' =>
            require (lo ≤ hi)
            checkMember (.literal lo b)
            checkMember (.literal hi b')
        | _, _ => failure
  | _ => checkMember first

/-- The height of an operation on classes, `left` being its left side if there is one. -/
def joined (left : Option Nat) (height : Nat) : Nat :=
  match left with
  | none => height
  | some left => max left height + 1

def classRest (nested : Reader Nat) : Nat → Option Nat → Tally → Reader Nat
  | 0, _, _ => failure
  | turns + 1, left, t => do
      skipSpace
      let s ← get
      let operation (rest : List Char) : Reader Nat := do
        setRest rest
        classRest nested turns (some (joined left t.height)) {}
      match s.rest with
      | ']' :: rest => setRest rest; return joined left t.height + 1
      | '[' :: rest =>
          match namedClass? rest with
          | some (negated, rest) =>
              require (!s.flags.folding && (s.flags.unicode || !negated))
              setRest rest
              classRest nested turns left (t.add 0)
          | none => classRest nested turns left (t.add (← nested))
      | '&' :: '&' :: rest => operation rest
      | '-' :: '-' :: rest => operation rest
      | '~' :: '~' :: rest => operation rest
      | _ =>
          classMember
          classRest nested turns left (t.add 0)

def hyphens : Nat → Tally → Reader Tally
  | 0, t => return t
  | turns + 1, t => do
      skipSpace
      match (← get).rest with
      | '-' :: rest =>
          checkMember (.literal '-' false)
          setRest rest
          hyphens turns (t.add 0)
      | _ => return t

/-- A class around the nested ones. A closing bracket that comes first stands for
itself. -/
def classAround (nested : Reader Nat) : Reader Nat := do
  let _ ← next
  skipSpace
  let s ← get
  match s.rest with
  | '^' :: rest =>
      require s.flags.unicode
      setRest rest
  | _ => pure ()
  let t ← hyphens s.rest.length {}
  match t.count, (← get).rest with
  | 0, ']' :: rest =>
      checkMember (.literal ']' false)
      setRest rest
      classRest nested s.rest.length none (t.add 0)
  | _, _ => classRest nested s.rest.length none t

def classWithin : Nat → Reader Nat
  | 0 => failure
  | depth + 1 => classAround (classWithin depth)

def bracketed : Reader Nat := do
  classWithin (← get).rest.length

/-! ## Groups -/

/-- The flags that a text writes, those behind a hyphen being taken back. -/
def Flags.change? (f : Flags) (text : List Char) : Option Flags :=
  if !text.all "imsURux-".toList.contains || text.eraseDups.length != text.length ||
      text.getLast? == some '-' then none
  else
    let (on, off) := text.span (· != '-')
    let flag (c : Char) (old : Bool) := (old || on.contains c) && !off.contains c
    some ⟨flag 'i' f.insensitive, flag 'u' f.unicode, flag 'x' f.spaced⟩

def isGroupName : List Char → Bool
  | [] => false
  | c :: name =>
      (c == '_' || Text.isAlphabetic c) &&
        name.all fun c => c == '_' || c == '.' || c == '[' || c == ']' || Text.isAlphanumeric c

def groupBody (nested : Reader Nat) (flags : Flags) : Reader Nat := do
  let old := (← get).flags
  modify fun s => { s with flags := flags }
  let height ← nested
  require ((← next) == ')')
  modify fun s => { s with flags := old }
  return height + 1

def namedGroup (nested : Reader Nat) (text : List Char) : Reader Nat := do
  let s ← get
  match text.span (· != '>') with
  | (name, _ :: rest) =>
      require (isGroupName name && !s.names.contains name)
      set { s with rest := rest, names := name :: s.names }
      groupBody nested s.flags
  | _ => failure

/-- A group from the character behind its parenthesis on, or nothing for one that
only sets flags. -/
def group (nested : Reader Nat) : Reader (Option Nat) := do
  skipSpace
  let s ← get
  match s.rest with
  | '?' :: '=' :: _ | '?' :: '!' :: _ | '?' :: '<' :: '=' :: _ | '?' :: '<' :: '!' :: _ => failure
  | '?' :: 'P' :: '<' :: rest => namedGroup nested rest
  | '?' :: '<' :: rest => namedGroup nested rest
  | '?' :: rest =>
      let (text, rest) := rest.span fun c => c != ':' && c != ')'
      match s.flags.change? text, rest with
      | some flags, ':' :: rest =>
          setRest rest
          groupBody nested flags
      | some flags, ')' :: rest =>
          require !text.isEmpty
          set { s with rest := rest, flags := flags }
          return none
      | _, _ => failure
  | _ => groupBody nested s.flags

/-! ## Expressions -/

def checkAtom (a : Atom) : Reader Unit := do
  let flags := (← get).flags
  match a with
  | .literal c byte => require (!flags.folding && (flags.unicode || c.toNat < 0x80 || !byte))
  | .words negated => require (!flags.unicode && !negated)
  | .assertion boundary =>
      modify fun s => { s with boundary := s.boundary || boundary && flags.unicode }

def atom : Reader Unit := do
  match ← next with
  | '\\' => checkAtom (← escape)
  | '.' => require (← get).flags.unicode
  | '^' | '$' => return
  | c => checkAtom (.literal c false)

/-- Alternatives up to a closing parenthesis or the end, in a number of turns:
`earlier` are those before, `t` the items of this one, and `last` the height of
the last item if it can be repeated. -/
def alternatives (nested : Reader Nat) : Nat → Tally → Tally → Option Nat → Reader Nat
  | 0, _, _, _ => failure
  | turns + 1, earlier, t, last => do
      skipSpace
      let item (height : Nat) : Reader Nat :=
        alternatives nested turns earlier (t.add height) (some height)
      let repeated (rest : List Char) : Reader Nat := do
        match last with
        | none => failure
        | some height =>
            setRest (match rest with
              | '?' :: rest => rest
              | rest => rest)
            alternatives nested turns earlier { t with top := max t.top (height + 1) }
              (some (height + 1))
      match (← get).rest with
      | [] | ')' :: _ => return (earlier.add t.height).height
      | '|' :: rest =>
          setRest rest
          alternatives nested turns (earlier.add t.height) {} none
      | '(' :: rest =>
          setRest rest
          match ← group nested with
          | some height => item height
          | none => alternatives nested turns earlier (t.add 0) none
      | '[' :: _ => item (← bracketed)
      | '?' :: rest => repeated rest
      | '*' :: rest => repeated rest
      | '+' :: rest => repeated rest
      | '{' :: _ => failure
      | _ =>
          atom
          item 0

def expressionWithin : Nat → Reader Nat
  | 0 => failure
  | depth + 1 => do
      alternatives (expressionWithin depth) ((← get).rest.length + 1) {} {} none

def expressionFault? (text : List Char) : Option Fault :=
  match expressionWithin (text.length + 1) { rest := text } with
  | some (height, ⟨[], _, _, boundary⟩) =>
      if heightLimit < height then some .unbuildable
      else if boundary then some .wordBoundary
      else none
  | _ => some .unbuildable

/-! ## Values -/

/-- Whether a text is empty or an exponent. -/
def isExponent : List Char → Bool
  | [] => true
  | e :: text =>
      let digits := match text with
        | '+' :: digits => digits
        | '-' :: digits => digits
        | digits => digits
      (e == 'e' || e == 'E') && !digits.isEmpty && digits.all Char.isDigit

def isNumber (text : List Char) : Bool :=
  let text := match text with
    | '+' :: text => text
    | '-' :: text => text
    | text => text
  let whole := text.takeWhile Char.isDigit
  let (fraction, rest) := match text.dropWhile Char.isDigit with
    | '.' :: rest => (rest.takeWhile Char.isDigit, rest.dropWhile Char.isDigit)
    | rest => ([], rest)
  ["inf", "infinity", "nan"].contains (String.ofList text).toLower ||
    (!(whole.isEmpty && fraction.isEmpty) && isExponent rest)

def fault? (text : String) : Option Fault :=
  if isNumber text.toList then none else expressionFault? text.toList

end Lila.Log.Pattern
