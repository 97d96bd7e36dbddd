/-!
# Text without terminal control

A text may hold sequences that a terminal takes as commands. `plain` is what is
left to read: the text without such sequences and without control characters
other than white space.

An escape character starts a sequence wherever it stands, and the characters
cancel and substitute end one. In a sequence that has not come to its end, white
space is shown, and what follows it is shown as well, up to the next character
that is not.
-/

namespace Lila.Text.Terminal

inductive Place where
  /-- Outside of all sequences. -/
  | outside
  /-- Behind an escape character. -/
  | escape
  /-- Behind an escape character and punctuation. -/
  | escapeMore
  /-- In a control sequence, up to the letter that ends it. -/
  | control
  /-- At the start of a device control string. -/
  | deviceStart
  /-- In the numbers of a device control string. -/
  | deviceNumbers
  /-- Behind the numbers of a device control string. -/
  | deviceMore
  /-- In the body of a string, up to its terminator. -/
  | body
  /-- In a command to the operating system, up to a bell. -/
  | command
deriving DecidableEq

structure Reader where
  place : Place := .outside
  /-- Whether characters are shown although a sequence has not come to its end. -/
  resumed : Bool := false
deriving DecidableEq

def isBetween (lo hi : Nat) (c : Char) : Bool := lo ≤ c.toNat && c.toNat ≤ hi

/-- ASCII white space other than the space. -/
def isLayout (c : Char) : Bool := c == '\t' || c == '\n' || c == '\x0c' || c == '\r'

def isShown (c : Char) : Bool := isLayout c || isBetween 0x20 0x7E c || 0x80 ≤ c.toNat

/-- Whether a character has the string terminator among the bytes of its UTF-8 form. -/
def hasTerminator (c : Char) : Bool := (String.utf8EncodeChar c).contains 0x9C

/-- The place behind a character that starts or ends sequences everywhere. -/
def everywhere? (c : Char) : Option Place :=
  if c = '\x1b' then some .escape
  else if c = '\x18' || c = '\x1a' then some .outside
  else none

def afterEscape (c : Char) : Place :=
  match c with
  | '[' => .control
  | ']' => .command
  | 'P' => .deviceStart
  | 'X' | '^' | '_' => .body
  | _ =>
      if isBetween 0x20 0x2F c then .escapeMore
      else if isBetween 0x30 0x7E c then .outside
      else .escape

def Place.after (p : Place) (c : Char) : Place :=
  match p with
  | .outside => .outside
  | .escape => afterEscape c
  | .escapeMore => if isBetween 0x30 0x7E c then .outside else .escapeMore
  | .control => if isBetween 0x40 0x7E c then .outside else .control
  | .deviceStart =>
      if isBetween 0x20 0x2F c then .deviceMore
      else if isBetween 0x30 0x3F c then .deviceNumbers
      else if isBetween 0x40 0x7E c then .body
      else .deviceStart
  | .deviceNumbers =>
      if isBetween 0x20 0x2F c then .deviceMore
      else if isBetween 0x3C 0x7E c then .body
      else .deviceNumbers
  | .deviceMore => if isBetween 0x30 0x7E c then .body else .deviceMore
  | .body => if hasTerminator c then .outside else .body
  | .command => if c = '\x07' then .outside else .command

def Place.showsLayout : Place → Bool
  | .escape | .escapeMore | .control => true
  | _ => false

def Reader.step (r : Reader) (c : Char) : Bool × Reader :=
  match everywhere? c with
  | some place => (false, { place := place })
  | none =>
      if r.resumed || r.place = .outside then
        if 0x80 ≤ c.toNat then (true, {})
        else (isShown c, { r with resumed := r.resumed && isShown c })
      else if r.place.showsLayout && isLayout c then (true, { r with resumed := true })
      else (false, { r with place := r.place.after c })

def plainFrom : Reader → List Char → List Char
  | _, [] => []
  | r, c :: text =>
      let (shown, r) := r.step c
      if shown then c :: plainFrom r text else plainFrom r text

/-- A text as it reads without terminal control. -/
def plain (text : String) : String := String.ofList (plainFrom {} text.toList)

end Lila.Text.Terminal
