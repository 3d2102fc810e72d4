import SymbolicCalculus.Derive.Literal
import SymbolicCalculus.Text.Blank

/-!
The pieces of Rust program text: words, punctuation marks, literals, and groups of pieces between
delimiters. Comments are left out, but comments that document an item are attributes.
-/

set_option autoImplicit false

namespace SymbolicCalculus

namespace Derive

inductive Delimiter where
  | paren
  | bracket
  | brace
  deriving DecidableEq, Repr

namespace Delimiter

def opening : Delimiter → Char
  | paren => '('
  | bracket => '['
  | brace => '\x7b'

def closing : Delimiter → Char
  | paren => ')'
  | bracket => ']'
  | brace => '\x7d'

def all : List Delimiter := [paren, bracket, brace]

end Delimiter

inductive Piece where
  | word (name : String)
  /-- A joint mark has another mark right behind it. -/
  | mark (symbol : Char) (joint : Bool)
  | literal (text : String)
  | group (delimiter : Delimiter) (inner : List Piece)
  deriving Inhabited, Repr

namespace Piece

mutual

def words : Piece → List String
  | word name => [name]
  | mark symbol _ => [symbol.toString]
  | literal text => [text]
  | group delimiter inner =>
    delimiter.opening.toString :: (wordsOfAll inner ++ [delimiter.closing.toString])

def wordsOfAll : List Piece → List String
  | [] => []
  | piece :: pieces => words piece ++ wordsOfAll pieces

end

mutual

/-- The number of pieces in a piece, itself included. -/
def count : Piece → Nat
  | group _ inner => countOfAll inner + 1
  | _ => 1

def countOfAll : List Piece → Nat
  | [] => 0
  | piece :: pieces => count piece + countOfAll pieces

end

end Piece

/-- A group that is still open, with the pieces found in it so far, the last first. -/
structure OpenGroup where
  delimiter : Delimiter
  pieces : List Piece

/-- Pieces found so far, the last first, within the groups that are open, the innermost first. -/
structure Nest where
  pieces : List Piece
  outer : List OpenGroup

namespace Nest

def push (nest : Nest) (piece : Piece) : Nest := ⟨piece :: nest.pieces, nest.outer⟩

def enter (nest : Nest) (delimiter : Delimiter) : Nest :=
  ⟨[], ⟨delimiter, nest.pieces⟩ :: nest.outer⟩

/-- Closes the innermost group, which must have the same delimiter. -/
def leave? (nest : Nest) (delimiter : Delimiter) : Option Nest :=
  match nest.outer with
  | ⟨opened, pieces⟩ :: outer =>
    if opened = delimiter then some ⟨.group delimiter nest.pieces.reverse :: pieces, outer⟩
    else none
  | [] => none

/-- All pieces, once every group is closed. -/
def finish? (nest : Nest) : Option (List Piece) :=
  if nest.outer.isEmpty then some nest.pieces.reverse else none

end Nest

def toLineEnd : List Char → List Char
  | [] => []
  | '\n' :: _ => []
  | '\r' :: '\n' :: _ => []
  | c :: rest => c :: toLineEnd rest

/-- What is in a block comment up to its end, given back to front behind `body`. Such comments
nest. -/
def blockComment (depth : Nat) (body : List Char) : List Char → Option (List Char)
  | '/' :: '*' :: rest => blockComment (depth + 1) ('*' :: '/' :: body) rest
  | '*' :: '/' :: rest =>
    if depth = 0 then some body.reverse else blockComment (depth - 1) ('/' :: '*' :: body) rest
  | c :: rest => blockComment depth (c :: body) rest
  | [] => none

/-- A comment at the start of a text. -/
inductive Comment where
  | plain
  /-- One that documents what follows, or what encloses it. -/
  | documentation (inner : Bool) (content : List Char)
  deriving Repr

/-- Is there a carriage return that no line feed follows? -/
def hasLoneReturn : List Char → Bool
  | '\r' :: '\n' :: rest => hasLoneReturn rest
  | '\r' :: _ => true
  | _ :: rest => hasLoneReturn rest
  | [] => false

/-- The comment at the start of the text, and the number of its characters. -/
def comment? (text : List Char) : Option (Nat × Comment) :=
  let line (rest : List Char) : Nat × List Char := (2 + (toLineEnd rest).length, toLineEnd rest)
  let block (rest : List Char) : Option (Nat × List Char) :=
    (blockComment 0 [] rest).map fun body => (body.length + 4, body)
  let plain (found : Nat × List Char) : Nat × Comment := (found.1, .plain)
  let documenting (inner : Bool) (found : Nat × List Char) : Option (Nat × Comment) :=
    let content := found.2.drop 1
    if hasLoneReturn content then none else some (found.1, .documentation inner content)
  match text with
  | '/' :: '/' :: '!' :: rest => documenting true (line ('!' :: rest))
  | '/' :: '/' :: '/' :: '/' :: rest => some (plain (line ('/' :: '/' :: rest)))
  | '/' :: '/' :: '/' :: rest => documenting false (line ('/' :: rest))
  | '/' :: '/' :: rest => some (plain (line rest))
  | '/' :: '*' :: '!' :: rest => (block ('!' :: rest)).bind (documenting true)
  -- An empty block comment is not the start of one that documents something.
  | '/' :: '*' :: '*' :: '/' :: _ => some (4, .plain)
  | '/' :: '*' :: '*' :: '*' :: rest => (block ('*' :: '*' :: rest)).map plain
  | '/' :: '*' :: '*' :: rest => (block ('*' :: rest)).bind (documenting false)
  | '/' :: '*' :: rest => (block rest).map plain
  | _ => none

/-- What spells a character in quoted text, in front of another one. Control characters are spelled
by their numbers, and a zero so that no digit behind it seems to belong to it. -/
def spelling (c : Char) (next : Option Char) : List Char :=
  match c with
  | '\n' => ['\\', 'n']
  | '\r' => ['\\', 'r']
  | '\t' => ['\\', 't']
  | '"' => ['\\', '"']
  | '\\' => ['\\', '\\']
  | '\x00' =>
    if next.any fun d => '0' ≤ d && d ≤ '7' then ['\\', 'x', '0', '0'] else ['\\', '0']
  | c =>
    if c.toNat < 32 || c.toNat = 127 then
      ['\\', 'u', '\x7b'] ++ Nat.toDigits 16 c.toNat ++ ['\x7d']
    else [c]

/-- A literal that spells a text. -/
def quoteText (text : List Char) : String :=
  let nexts := (text.drop 1).map some ++ [none]
  String.ofList ('"' :: ((text.zip nexts).flatMap (fun (c, next) => spelling c next) ++ ['"']))

/-- The pieces of an attribute that documents an item, the last first. -/
def documentationPieces (inner : Bool) (content : List Char) : List Piece :=
  let body : Piece :=
    .group .bracket [.word "doc", .mark '=' false, .literal (quoteText content)]
  if inner then [body, .mark '!' false, .mark '#' false] else [body, .mark '#' false]

/-- Is the character a mark that stands between words? -/
def isMark (c : Char) : Bool := "~!@#$%^&*-=+|;:,<.>/?".toList.contains c || c == tick

def startsMark : List Char → Bool
  | '/' :: '/' :: _ => false
  | '/' :: '*' :: _ => false
  | c :: _ => isMark c
  | [] => false

/-- Behind the word that starts here, which may be marked as no keyword. -/
def skipWord? (text : List Char) : Option (List Char) :=
  match text with
  | 'r' :: '#' :: rest =>
    let name := rest.take (rest.length - (skipIdentifier rest).length)
    let neverMarked := ["_", "super", "self", "Self", "crate"]
    if name.isEmpty || neverMarked.contains (String.ofList name) then none
    else some (skipIdentifier rest)
  | c :: _ => if isIdentifierStart c then some (skipIdentifier text) else none
  | [] => none

/-- The mark that starts the text. An apostrophe must be in front of a lifetime. -/
def mark? : List Char → Option Piece
  | c :: rest =>
    if c = tick then
      match skipWord? rest with
      | some (d :: _) =>
        -- With an apostrophe on both sides it would have been a character.
        if d = tick ∨ (d = '#' ∧ rest.take 2 ≠ ['r', '#']) then none
        else some (.mark tick true)
      | some [] => some (.mark tick true)
      | none => none
    else if startsMark (c :: rest) then some (.mark c (startsMark rest))
    else none
  | [] => none

def startsLiteral (text : List Char) : Bool :=
  ["r\"", "r#\"", "r##", "b\"", "b\x27", "br\"", "br#", "c\"", "cr\"", "cr#"].any fun start =>
    start.toList.isPrefixOf text

/-- The piece at the start of the text that is no group, and the number of its characters. -/
def leaf? (text : List Char) : Option (Nat × Piece) :=
  match skipLiteral text with
  | some rest =>
    let length := text.length - rest.length
    some (length, .literal (String.ofList (text.take length)))
  | none =>
    match mark? text with
    | some piece => some (1, piece)
    | none =>
      if startsLiteral text then none
      else
        (skipWord? text).map fun rest =>
          let length := text.length - rest.length
          (length, .word (String.ofList (text.take length)))

def readPieces (nest : Nest) (text : List Char) : Option (List Piece) :=
  match text with
  | [] => nest.finish?
  | c :: rest =>
    if isWhiteSpace c || c.toNat == 0x200e || c.toNat == 0x200f then readPieces nest rest
    else
      match comment? (c :: rest) with
      | some (length, .plain) => readPieces nest (rest.drop (length - 1))
      | some (length, .documentation inner content) =>
        readPieces ⟨documentationPieces inner content ++ nest.pieces, nest.outer⟩
          (rest.drop (length - 1))
      | none =>
        match Delimiter.all.find? (·.opening == c) with
        | some delimiter => readPieces (nest.enter delimiter) rest
        | none =>
          match Delimiter.all.find? (·.closing == c) with
          | some delimiter =>
            match nest.leave? delimiter with
            | some nest => readPieces nest rest
            | none => none
          | none =>
            match leaf? (c :: rest) with
            | some (length, piece) => readPieces (nest.push piece) (rest.drop (length - 1))
            | none => none
termination_by text.length

/-- The pieces of a text. A byte order mark in front is passed over. -/
def piecesOf (text : String) : Option (List Piece) :=
  match text.toList with
  | '\ufeff' :: rest => readPieces ⟨[], []⟩ rest
  | text => readPieces ⟨[], []⟩ text

end Derive

end SymbolicCalculus
