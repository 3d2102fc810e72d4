import SymbolicCalculus.Derive.Piece

/-! Reading pieces in order, and writing down the words of what has been read. -/

set_option autoImplicit false

namespace SymbolicCalculus

namespace Derive

/-- The words that cannot name anything. -/
def keywords : List String :=
  ["_", "abstract", "as", "async", "await", "become", "box", "break", "const", "continue", "crate",
    "do", "dyn", "else", "enum", "extern", "false", "final", "fn", "for", "if", "impl", "in", "let",
    "loop", "macro", "match", "mod", "move", "mut", "override", "priv", "pub", "ref", "return",
    "Self", "self", "static", "struct", "super", "trait", "true", "try", "type", "typeof", "unsafe",
    "unsized", "use", "virtual", "where", "while", "yield"]

def isName (word : String) : Bool := !keywords.contains word

def isPlaceWord (word : String) : Bool := ["super", "self", "Self", "crate"].contains word

/-- Do the pieces start with these marks, each but the last joined to the next? -/
def startsWithMarks : List Char → List Piece → Bool
  | [], _ => true
  | [c], .mark symbol _ :: _ => c == symbol
  | c :: marks, .mark symbol joint :: pieces => c == symbol && joint && startsWithMarks marks pieces
  | _, _ => false

/-- A place among pieces, with the words written for those passed, the last first. -/
structure Scan where
  ahead : List Piece
  written : List String
  /-- Was a group left before its end? -/
  leftover : Bool

namespace Scan

def start (pieces : List Piece) : Scan := ⟨pieces, [], false⟩

def isDone (s : Scan) : Bool := s.ahead.isEmpty

def isComplete (s : Scan) : Bool := s.isDone && !s.leftover

def write (s : Scan) (words : List String) : Scan :=
  { s with written := words.reverseAux s.written }

/-- A look from behind the next pieces. -/
def beyond (s : Scan) (count : Nat) : Scan := { s with ahead := s.ahead.drop count }

def pass (s : Scan) : Option Scan :=
  match s.ahead with
  | piece :: ahead => some ({ s with ahead }.write piece.words)
  | [] => none

def atMarks (s : Scan) (marks : String) : Bool := startsWithMarks marks.toList s.ahead

def atWord (s : Scan) (word : String) : Bool :=
  match s.ahead with
  | .word name :: _ => name == word
  | _ => false

def atName (s : Scan) : Bool :=
  match s.ahead with
  | .word name :: _ => isName name
  | _ => false

def atPlaceWord (s : Scan) : Bool :=
  match s.ahead with
  | .word name :: _ => isPlaceWord name
  | _ => false

def atGroup (s : Scan) (delimiter : Delimiter) : Bool :=
  match s.ahead with
  | .group opened _ :: _ => opened == delimiter
  | _ => false

def atNumeral (s : Scan) : Bool :=
  match s.ahead with
  | .literal text :: _ => text.toList.head?.any Char.isDigit
  | _ => false

/-- Is there a literal? A minus sign is part of the numeral behind it. -/
def atLiteral (s : Scan) : Bool :=
  match s.ahead with
  | .literal _ :: _ => true
  | .word name :: _ => name == "true" || name == "false"
  | _ => s.atMarks "-" && (s.beyond 1).atNumeral

def atLifetime (s : Scan) : Bool := s.atMarks (String.ofList [tick])

/-- Is there one point, and not the two of a range? -/
def atDot (s : Scan) : Bool := s.atMarks "." && !s.atMarks ".."

/-- Is there one colon, and not the two of a path? -/
def atColon (s : Scan) : Bool := s.atMarks ":" && !s.atMarks "::"

/-- Is there the exclamation mark of a macro call? -/
def atBang (s : Scan) : Bool := s.atMarks "!" && !s.atMarks "!="

/-- Behind two joint colons there is an angle bracket. -/
def atTurbofish (s : Scan) : Bool := s.atMarks "::" && (s.beyond 2).atMarks "<"

def passMarks (s : Scan) (marks : String) : Option Scan :=
  if s.atMarks marks then marks.toList.foldlM (fun s _ => s.pass) s else none

def skipMarks (s : Scan) (marks : String) : Scan := (s.passMarks marks).getD s

/-- Passes the marks, if they are there, without writing them. -/
def dropMarks (s : Scan) (marks : String) : Scan :=
  if s.atMarks marks then s.beyond marks.length else s

def passWord (s : Scan) (word : String) : Option Scan := if s.atWord word then s.pass else none

def passName (s : Scan) : Option Scan := if s.atName then s.pass else none

def skipWord (s : Scan) (word : String) : Scan := (s.passWord word).getD s

def passLifetime (s : Scan) : Option Scan :=
  if s.atLifetime then s.pass.bind pass else none

def passLiteral (s : Scan) : Option Scan :=
  if s.atLiteral then (s.skipMarks "-").pass else none

/-- Passes an exclamation mark and the group behind it, whatever is inside. -/
def passMacro (s : Scan) : Option Scan :=
  match s.ahead.drop 1 with
  | .group _ _ :: _ => (s.passMarks "!").bind pass
  | _ => none

/-- Reads in a group. If something is left over there, that is noted. -/
def within {α : Type} (s : Scan) (delimiter : Delimiter) (read : Scan → Option (α × Scan)) :
    Option (α × Scan) :=
  match s.ahead with
  | .group opened inner :: ahead =>
    if opened = delimiter then
      (read ⟨inner, delimiter.opening.toString :: s.written, s.leftover⟩).map
        fun (a, last) => (a, ⟨ahead, delimiter.closing.toString :: last.written,
          last.leftover || !last.isDone⟩)
    else none
  | _ => none

def inside (s : Scan) (delimiter : Delimiter) (read : Scan → Option Scan) : Option Scan :=
  (s.within delimiter fun s => (read s).map ((), ·)).map Prod.snd

/-- The words that a reader would write, and the place behind. -/
def captured {α : Type} (s : Scan) (read : Scan → Option (α × Scan)) :
    Option (α × List String × Scan) :=
  (read { s with written := [] }).map fun (a, last) =>
    (a, last.written.reverse, { last with written := s.written })

/-- Reads things up to the end, with a comma between each two and perhaps behind the last. -/
def separated (read : Scan → Option Scan) : Nat → Scan → Option Scan
  | 0, _ => none
  | fuel + 1, s =>
    if s.isDone then some s
    else (read s).bind fun s =>
      if s.isDone then some s else (s.passMarks ",").bind (separated read fuel)

/-- Writes the number of a field in its shortest form. -/
def writeIndex (s : Scan) (text : List Char) : Option Scan :=
  (wholeValue? text).bind fun n => if n < 0x100000000 then some (s.write [toString n]) else none

def passMember (s : Scan) : Option Scan :=
  match s.ahead with
  | .literal text :: ahead => { s with ahead }.writeIndex text.toList
  | _ => s.passName

end Scan

/-- Behind a path without generic arguments. -/
def passPlainPath : Nat → Scan → Option Scan
  | 0, _ => none
  | fuel + 1, s =>
    let s := s.skipMarks "::"
    if s.atName || s.atPlaceWord then do
      let s ← s.pass
      if s.atMarks "::" then passPlainPath fuel s else some s
    else none

end Derive

end SymbolicCalculus
