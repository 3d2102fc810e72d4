import SymbolicCalculus.Derive.Expression

/-! Declarations of structures with the attributes in front of them. -/

set_option autoImplicit false

namespace SymbolicCalculus

namespace Derive

/-- What stands behind the path of an attribute. -/
inductive AttributeBody where
  | nothing
  | value
  | list (pieces : List Piece)

structure Attribute where
  /-- The name, if the path is a single one. -/
  name : Option String
  body : AttributeBody
  /-- Is nothing left between the brackets, nor in any group there? -/
  complete : Bool

/-- The fields of a structure; those with names are listed. -/
inductive Fields where
  | named (names : List String)
  | tuple
  | unit
  deriving DecidableEq, Repr

structure Declaration where
  attributes : List Attribute
  name : String
  fields : Fields
  /-- Does nothing follow the declaration, and is nothing left in any group of it? -/
  complete : Bool

def readAttribute? (pieces : List Piece) : Option Attribute := do
  let fuel := fuelFor pieces
  let last ← passMeta (readersOf fuel) fuel (.start pieces)
  let name :=
    match pieces with
    | .word name :: next => if (Scan.start next).atMarks "::" then none else some name
    | _ => none
  let body :=
    match (passPlainPath fuel (.start pieces)).map Scan.ahead with
    | some (.group _ inner :: _) => AttributeBody.list inner
    | some (.mark '=' _ :: _) => .value
    | _ => .nothing
  some ⟨name, body, last.isComplete⟩

def readAttributes? : List Piece → Option (List Attribute × List Piece)
  | .mark '#' _ :: .group .bracket inner :: pieces => do
    let first ← readAttribute? inner
    let (others, rest) ← readAttributes? pieces
    some (first :: others, rest)
  | .mark '#' _ :: _ => none
  | pieces => some ([], pieces)

/-- Passes how far something can be seen, if that is said. A group behind the word restricts it
only if it is about a part of the program. -/
def passVisibility (fuel : Nat) (s : Scan) : Option Scan :=
  if s.atWord "pub" then do
    let s ← s.pass
    match s.ahead with
    | .group .paren [.word name] :: _ =>
      if ["crate", "self", "super"].contains name then s.pass else some s
    | .group .paren (.word "in" :: _) :: _ =>
      s.inside .paren fun s => (s.passWord "in").bind (passPlainPath fuel)
    | _ => some s
  else some s

/-- The names of fields and the commas between them, up to the end, behind names given back to
front. Fields without a name can be grouped in place of having a type. -/
def readNamedFields? (readers : Readers) (names : List String) :
    Nat → Scan → Option (List String × Scan)
  | 0, _ => none
  | fuel + 1, s =>
    if s.isDone then some (names.reverse, s)
    else do
      let s ← passVisibility fuel (← passAttributes readers fuel s)
      match s.ahead with
      | .word name :: _ =>
        let s ← (← if name == "_" then s.pass else s.passName).passMarks ":"
        let grouped := s.atWord "struct" || (s.atWord "union" && (s.beyond 1).atGroup .brace)
        let s ←
          if name == "_" && grouped then do
            Prod.snd <$> (← s.pass).within .brace (readNamedFields? readers [] fuel)
          else Prod.snd <$> readType readers true fuel s
        if s.isDone then some ((name :: names).reverse, s)
        else readNamedFields? readers (name :: names) fuel (← s.passMarks ",")
      | _ => none

def passTupleField (readers : Readers) (fuel : Nat) (s : Scan) : Option Scan := do
  let s ← passVisibility fuel (← passAttributes readers fuel s)
  Prod.snd <$> readType readers true fuel s

def passConditions (readers : Readers) : Nat → Scan → Option Scan
  | 0, _ => none
  | fuel + 1, s =>
    if s.isDone || s.atGroup .brace || s.atMarks "," || s.atMarks ";" || s.atColon
      || s.atMarks "=" then some s
    else do
      let s ←
        if s.atLifetime && (s.beyond 2).atMarks ":" then do
          passLifetimeBounds fuel (← (← s.passLifetime).passMarks ":")
        else do
          let s ← if s.atWord "for" then passBinder readers fuel s else some s
          let (_, s) ← readType readers true fuel s
          passBoundList readers [",", ";", "="] fuel (← s.passMarks ":")
      if s.atMarks "," then passConditions readers fuel (← s.passMarks ",") else some s

def passWhere (readers : Readers) (fuel : Nat) (s : Scan) : Option Scan :=
  if s.atWord "where" then s.pass.bind (passConditions readers fuel) else some s

def readFields? (readers : Readers) (fuel : Nat) (s : Scan) : Option (Fields × Scan) :=
  -- The conditions of a structure without field names stand behind its fields.
  if s.atGroup .paren then do
    let s ← s.inside .paren (Scan.separated (passTupleField readers fuel) fuel)
    some (.tuple, ← (← passWhere readers fuel s).passMarks ";")
  else do
    let s ← passWhere readers fuel s
    if s.atGroup .brace then
      let (names, s) ← s.within .brace (readNamedFields? readers [] fuel)
      some (.named names, s)
    else some (.unit, ← s.passMarks ";")

def readDeclaration? (pieces : List Piece) : Option Declaration := do
  let (attributes, rest) ← readAttributes? pieces
  let fuel := fuelFor rest
  let readers := readersOf fuel
  let s ← (← passVisibility fuel (.start rest)).passWord "struct"
  match s.ahead with
  | .word name :: _ =>
    let s ← s.passName
    let s ← if s.atMarks "<" then passGenerics readers fuel (← s.passMarks "<") else some s
    let (fields, s) ← readFields? readers fuel s
    some ⟨attributes, name, fields, s.isComplete⟩
  | _ => none

end Derive

end SymbolicCalculus
