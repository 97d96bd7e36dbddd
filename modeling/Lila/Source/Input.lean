/-!
# Reading a source

Where a program comes from, and what its surroundings have to say about it.
-/

namespace Lila

inductive Input where
  | standard
  | file (path : String)
deriving DecidableEq

inductive ReadError where
  | notFound
  | notADirectory
  | isADirectory
  | notText
deriving DecidableEq

def ReadError.message : ReadError → String
  | .notFound => "No such file or directory (os error 2)"
  | .notADirectory => "Not a directory (os error 20)"
  | .isADirectory => "Is a directory (os error 21)"
  | .notText => "stream did not contain valid UTF-8"

/-- What a program can see of the machine: its files and its standard input. -/
structure Host where
  file : String → Except ReadError ByteArray
  standard : ByteArray := .empty

def Input.read (host : Host) (input : Input) : Except ReadError String := do
  let bytes ← match input with
    | .standard => pure host.standard
    | .file path => host.file path
  match String.fromUTF8? bytes with
  | some text => return text
  | none => throw .notText

/-- A machine with no files besides the root directory and the two devices for
nothing and for standard input. -/
def Host.bare (standard : ByteArray) : Host where
  standard := standard
  file path :=
    if path = "/" then .error .isADirectory
    else if path = "/dev/stdin" then .ok standard
    else if path = "/dev/null" then .ok .empty
    else if path.startsWith "/dev/null/" then .error .notADirectory
    else .error .notFound

end Lila
