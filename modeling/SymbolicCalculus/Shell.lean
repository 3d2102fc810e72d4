import SymbolicCalculus.Session

/-!
The shell: runs the lines of a file or of standard input, or lines as they are typed. What it shows
is a list of events, so that running it is a matter of writing them out.
-/

set_option autoImplicit false

namespace SymbolicCalculus

namespace Shell

inductive Source where
  | stdin
  | file (path : String)
  deriving DecidableEq, Repr

inductive ReadFailure where
  | missing
  | invalidText
  | other (message : String)
  deriving DecidableEq, Repr

inductive Event where
  | prompt
  /-- The answer to a line, on standard output. -/
  | answer (text : String)
  /-- The report of an error, drawn over the line that was entered. -/
  | report (error : Session.Error) (line : String)
  /-- The input cannot be read; the shell ends without success. -/
  | unreadable (source : Source) (failure : ReadFailure)
  /-- A typed line cannot be read; the shell ends without success. -/
  | unreadableLine
  deriving DecidableEq, Repr

def ReadFailure.message : ReadFailure → String
  | missing => "No such file or directory (os error 2)"
  | invalidText => "stream did not contain valid UTF-8"
  | other message => message

namespace Source

def label : Source → String
  | stdin => "stdin"
  | file path => "`" ++ path ++ "`"

end Source

namespace Event

def output : Event → String
  | prompt => "> "
  | answer text => text ++ "\n"
  | _ => ""

def headline? : Event → Option String
  | report error _ => some ("Error: " ++ error.message)
  | unreadable source failure =>
    some ("Error: could not read " ++ source.label ++ ": " ++ failure.message)
  | unreadableLine => some ("Error: " ++ ReadFailure.invalidText.message)
  | _ => none

/-- Does the shell end with this event, and fail? -/
def isFatal : Event → Bool
  | unreadable _ _ | unreadableLine => true
  | _ => false

end Event

def exitCode (events : List Event) : UInt32 := if events.any Event.isFatal then 1 else 0

/-- Runs one line. Blank lines are passed over. -/
def enter (session : Session) (line : String) : List Event × Session :=
  if isBlankLine line then ([], session)
  else
    match session.execute line with
    | (.ok text, next) => ([.answer text], next)
    | (.error error, next) => ([.report error line], next)

def enterAll (session : Session) : List String → List Event
  | [] => []
  | line :: lines =>
    let (events, next) := enter session line
    events ++ enterAll next lines

-- A whole input is decoded before its first line runs, a typed one line by line.

/-- Runs all lines of an input in a new session, or none of them if it is not text. -/
def runBatch (source : Source) (input : ByteArray) : List Event :=
  match String.fromUTF8? input with
  | none => [.unreadable source .invalidText]
  | some text => enterAll .new (linesOf text)

/-- Runs lines as they are typed, with a prompt before each and before the end of the input. A line
that is not text ends the shell. -/
def runTyped (session : Session) : List ByteArray → List Event
  | [] => [.prompt]
  | line :: lines =>
    match String.fromUTF8? line with
    | none => [.prompt, .unreadableLine]
    | some text =>
      let (events, next) := enter session text
      .prompt :: events ++ runTyped next lines

/-- The typed lines in a stream of bytes. A line feed ends each, together with a carriage return
before it, and the last line may lack both. -/
def typedLines (line : List UInt8) (lines : List ByteArray) : List UInt8 → List ByteArray
  | [] => (if line.isEmpty then lines else ⟨line.reverse.toArray⟩ :: lines).reverse
  | byte :: bytes =>
    if byte = 10 then
      let ended := if line.head? = some 13 then line.tail else line
      typedLines [] (⟨ended.reverse.toArray⟩ :: lines) bytes
    else typedLines (byte :: line) lines bytes

/-- Runs a whole typed input in a new session, as if it came from a terminal. -/
def runInteractive (typed : ByteArray) : List Event :=
  runTyped .new (typedLines [] [] typed.toList)

def versionLine : String := "symdiff 0.1.0"

end Shell

end SymbolicCalculus
