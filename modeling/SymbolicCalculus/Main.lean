import SymbolicCalculus.Shell
import SymbolicCalculus.SyntaxError.Report

/-! The command line: runs a file, standard input, or an interactive session. -/

set_option autoImplicit false

namespace SymbolicCalculus

namespace Main

partial def readAll (stream : IO.FS.Stream) (bytes : ByteArray) : IO ByteArray := do
  let more ← stream.read 65536
  if more.isEmpty then pure bytes else readAll stream (bytes ++ more)

/-- The places of a report and what is said there, a line each. -/
def details : Shell.Event → List String
  | .report (.syntaxError error) _ =>
    let report := error.report
    report.labels.map (fun (label, span) =>
        "  " ++ toString span.start ++ ".." ++ toString span.stop ++ ": " ++ label)
      ++ (report.help.map ("  Help: " ++ ·)).toList
  | _ => []

def put (event : Shell.Event) : IO Unit := do
  let out ← IO.getStdout
  out.putStr event.output
  out.flush
  match event.headline? with
  | some headline =>
    IO.eprintln headline
    (details event).forM IO.eprintln
  | none => pure ()

def putAll (events : List Shell.Event) : IO UInt32 := do
  events.forM put
  pure (Shell.exitCode events)

/-- Prompts for lines up to the end of the input. -/
partial def interact (session : Session) : IO UInt32 := do
  put .prompt
  let line ← (do pure (some (← (← IO.getStdin).getLine))) <|> pure none
  match line with
  | none => putAll [.unreadableLine]
  | some "" => pure 0
  | some line =>
    let (events, next) := Shell.enter session ((linesOf line).headD "")
    events.forM put
    interact next

def runFile (path : String) : IO UInt32 := do
  try
    putAll (Shell.runBatch (.file path) (← IO.FS.readBinFile path))
  catch error =>
    let failure : Shell.ReadFailure :=
      match error with
      | .noFileOrDirectory .. => .missing
      | error => .other (toString error)
    putAll [.unreadable (.file path) failure]

end Main

end SymbolicCalculus

open SymbolicCalculus in
def main (args : List String) : IO UInt32 := do
  match args with
  | [] =>
    let stdin ← IO.getStdin
    if ← stdin.isTty then Main.interact .new
    else Main.putAll (Shell.runBatch .stdin (← Main.readAll stdin ByteArray.empty))
  | ["--version"] | ["-V"] =>
    IO.println Shell.versionLine
    pure 0
  | [path] => Main.runFile path
  | _ =>
    IO.eprintln "usage: symdiff [FILE]"
    pure 2
