import SymbolicCalculus.Derive.Scan

/-!
Paths and types of Rust, with their generic arguments and parameters. Types hold expressions as the
lengths of arrays and blocks as arguments; how these are read is a parameter here. The number
`fuel` bounds how deep the functions call each other.
-/

set_option autoImplicit false

namespace SymbolicCalculus

namespace Derive

/-- The readers of the expressions and blocks that types, patterns and attributes can hold. -/
structure Readers where
  expression : Scan → Option Scan
  block : Scan → Option Scan

/-- What counts of a path for what may follow it. -/
structure PathShape where
  /-- It starts with a type between angle brackets. -/
  qualified : Bool
  /-- It is no more than a name, with or without arguments. -/
  single : Bool
  /-- No name in it has arguments. -/
  plain : Bool
  /-- Its last name has no arguments. -/
  bare : Bool
  deriving DecidableEq, Repr

/-- What counts of a type for what may follow it. -/
inductive TypeShape where
  | name
  | path
  | bound
  | paren
  | other
  deriving DecidableEq, Repr

/-- An argument between angle brackets. -/
structure Argument where
  isLifetime : Bool
  words : List String
  deriving DecidableEq, Repr

/-- The words of generic arguments. Lifetimes come before all others, and the argument that was
last takes along the comma behind it, or the lack of one. -/
def Argument.arranged (arguments : List Argument) (lastHasComma : Bool) : List String :=
  let ordered := arguments.filter (·.isLifetime) ++ arguments.filter (!·.isLifetime)
  let lastMoved := (arguments.getLast?.any (·.isLifetime)) && arguments.any (!·.isLifetime)
  let words := (ordered.map Argument.words).intersperse [","]
  words.flatten ++ if (lastHasComma || lastMoved) && !arguments.isEmpty then [","] else []

def passConstant (readers : Readers) (s : Scan) : Option Scan :=
  if s.atLiteral then s.passLiteral
  else if s.atName then s.pass
  else if s.atGroup .brace then readers.block s
  else none

/-- Is there something that can follow the plus sign between bounds? -/
def Scan.atBound (s : Scan) : Bool :=
  match s.ahead with
  | .word _ :: _ => true
  | _ => s.atMarks "::" || s.atMarks "?" || s.atLifetime || s.atGroup .paren

/-- Are there the types of a function's parameters, in round brackets? -/
def Scan.atSignature (s : Scan) : Bool :=
  s.atGroup .paren || (s.atMarks "::" && (s.beyond 2).atGroup .paren)

/-- What is between the brackets of an attribute: a path, and perhaps a value or any group. -/
def passMeta (readers : Readers) (fuel : Nat) (s : Scan) : Option Scan := do
  let s ← if s.atWord "unsafe" then s.pass else passPlainPath fuel s
  if s.atGroup .paren || s.atGroup .bracket || s.atGroup .brace then s.pass
  else if s.atMarks "=" then
    let s ← s.passMarks "="
    if s.atMarks "#" && (s.beyond 1).atGroup .bracket then none else readers.expression s
  else some s

def passAttributes (readers : Readers) : Nat → Scan → Option Scan
  | 0, _ => none
  | fuel + 1, s =>
    if s.atMarks "#" then do
      passAttributes readers fuel
        (← (← s.passMarks "#").inside .bracket (passMeta readers fuel))
    else some s

mutual

/-- Names with two colons between each two. In an expression, arguments stand behind colons too. -/
def readSegments (readers : Readers) (expression : Bool) (shape : PathShape) :
    Nat → Scan → Option (PathShape × Scan)
  | 0, _ => none
  | fuel + 1, s => do
    let (bare, s) ←
      if s.atWord "super" || s.atWord "self" || s.atWord "crate" || s.atWord "try" then
        some (true, ← s.pass)
      else if s.atName || s.atWord "Self" then do
        let s ← s.pass
        if !expression && s.atMarks "<" && !s.atMarks "<=" && !s.atMarks "<<=" then
          some (false, ← passArguments readers fuel s)
        else if s.atTurbofish then
          some (false, ← passArguments readers fuel (← s.passMarks "::"))
        else some (true, s)
      else none
    let shape := { shape with plain := shape.plain && bare, bare := bare }
    if s.atMarks "::" && (shape.qualified || !(s.beyond 2).atGroup .paren) then
      readSegments readers expression { shape with single := false } fuel (← s.passMarks "::")
    else some (shape, s)

/-- A path that starts with a name or with colons. -/
def readPath (readers : Readers) (expression : Bool) : Nat → Scan → Option (PathShape × Scan)
  | 0, _ => none
  | fuel + 1, s =>
    let single := !s.atMarks "::"
    readSegments readers expression ⟨false, single, true, true⟩ fuel (s.skipMarks "::")

/-- A path that may start with a type between angle brackets. -/
def readQualifiedPath (readers : Readers) (expression : Bool) :
    Nat → Scan → Option (PathShape × Scan)
  | 0, _ => none
  | fuel + 1, s =>
    if s.atMarks "<" then do
      let (_, s) ← readType readers true fuel (← s.passMarks "<")
      let s ←
        if s.atWord "as" then Prod.snd <$> readPath readers false fuel (← s.pass) else some s
      let s ← (← s.passMarks ">").passMarks "::"
      readSegments readers expression ⟨true, false, false, true⟩ fuel s
    else readPath readers expression fuel s

def passArguments (readers : Readers) : Nat → Scan → Option Scan
  | 0, _ => none
  | fuel + 1, s => do
    let ((arguments, comma), s) ← readArguments readers [] fuel (← s.passMarks "<")
    (s.write (Argument.arranged arguments comma)).passMarks ">"

/-- The arguments up to the closing bracket, behind those given back to front. They are not written
yet. -/
def readArguments (readers : Readers) (arguments : List Argument) :
    Nat → Scan → Option ((List Argument × Bool) × Scan)
  | 0, _ => none
  | fuel + 1, s =>
    if s.atMarks ">" then some ((arguments.reverse, true), s)
    else do
      let (isLifetime, words, s) ← s.captured (readArgument readers fuel)
      let arguments := ⟨isLifetime, words⟩ :: arguments
      if s.atMarks ">" then some ((arguments.reverse, false), s)
      else if s.atMarks "," then readArguments readers arguments fuel (s.dropMarks ",")
      else none

def readArgument (readers : Readers) : Nat → Scan → Option (Bool × Scan)
  | 0, _ => none
  | fuel + 1, s =>
    if s.atLifetime && !(s.beyond 2).atMarks "+" then do some (true, ← s.passLifetime)
    else if s.atLiteral || s.atGroup .brace then do some (false, ← passConstant readers s)
    else do
      let (shape, s) ← readType readers true fuel s
      if shape = .name && s.atMarks "=" then
        let s ← s.passMarks "="
        if s.atLiteral || s.atGroup .brace then some (false, ← passConstant readers s)
        else some (false, ← Prod.snd <$> readType readers true fuel s)
      else if shape = .name && s.atMarks ":" then
        some (false, ← passBoundList readers [",", ">"] fuel (← s.passMarks ":"))
      else some (false, s)

def passSignature (readers : Readers) : Nat → Scan → Option Scan
  | 0, _ => none
  | fuel + 1, s => do
    let s ← (s.dropMarks "::").inside .paren
      (Scan.separated (fun s => Prod.snd <$> readType readers true fuel s) fuel)
    if s.atMarks "->" then Prod.snd <$> readType readers false fuel (← s.passMarks "->") else some s

/-- A type. With `sums`, bounds with plus signs between them count as one. Only bounds have the
types of a function behind a path. -/
def readType (readers : Readers) (sums : Bool) : Nat → Scan → Option (TypeShape × Scan)
  | 0, _ => none
  | fuel + 1, s =>
    if s.atGroup .paren then readParenType readers sums fuel s
    else if s.atWord "for" then do
      let s ← passBinder readers fuel s
      if s.atWord "fn" || s.atWord "unsafe" || s.atWord "extern" then
        some (.other, ← passFunctionType readers fuel s)
      else if s.atName || s.atPlaceWord then
        let (_, s) ← readQualifiedPath readers false fuel s
        if sums && s.atMarks "+" then some (.other, ← passSum readers true fuel s)
        else some (.bound, s)
      else none
    else if s.atWord "fn" || s.atWord "unsafe" || s.atWord "extern" then do
      some (.other, ← passFunctionType readers fuel s)
    else if s.atName || s.atPlaceWord || s.atMarks "::" || s.atMarks "<" then do
      let (path, s) ← readQualifiedPath readers false fuel s
      if path.qualified then some (.other, s)
      else if path.plain && s.atBang then some (.other, ← s.passMacro)
      else if sums && s.atMarks "+" && !s.atMarks "+=" then
        some (.other, ← passSum readers true fuel s)
      else some (if path.single then .name else .path, s)
    else if s.atWord "dyn" then do
      let s ← s.pass
      some (.other, ← passObject readers sums fuel (s.skipMarks "*"))
    else if s.atGroup .bracket then do
      let s ← s.inside .bracket fun s => do
        let (_, s) ← readType readers true fuel s
        if s.atMarks ";" then readers.expression (← s.passMarks ";") else some s
      some (.other, s)
    else if s.atMarks "*" then do
      let s ← s.passMarks "*"
      if s.atWord "const" || s.atWord "mut" then
        some (.other, ← Prod.snd <$> readType readers false fuel (← s.pass))
      else none
    else if s.atMarks "&" then do
      let s ← s.passMarks "&"
      let s ← if s.atLifetime then s.passLifetime else some s
      some (.other, ← Prod.snd <$> readType readers false fuel (s.skipWord "mut"))
    else if s.atMarks "!" || s.atWord "_" then do some (.other, ← s.pass)
    else if s.atWord "impl" then do
      some (.other, ← passObject readers sums fuel (← s.pass))
    else if s.atLifetime then do some (.other, ← passObject readers true fuel s)
    else none

/-- A type in round brackets, several types, or a sum that starts with a bound in brackets. -/
def readParenType (readers : Readers) (sums : Bool) : Nat → Scan → Option (TypeShape × Scan)
  | 0, _ => none
  | fuel + 1, s => do
    -- The first part says what may follow the brackets: `bound` may be a sum by itself.
    let (shape, s) ← s.within .paren fun s =>
      if s.isDone then some (TypeShape.other, s)
      else if s.atLifetime then do some (.other, ← passObject readers true fuel s)
      else if s.atMarks "?" then do some (.bound, ← passTrait readers fuel s)
      else do
        let (shape, s) ← readType readers true fuel s
        if s.atMarks "," then
          let s ← s.passMarks ","
          some (.other, ← Scan.separated
            (fun s => Prod.snd <$> readType readers true fuel s) fuel s)
        else some (if shape = .other then .paren else shape, s)
    if shape = .other then some (.other, s)
    else if sums && shape ≠ .paren && s.atMarks "+" then
      some (.other, ← passSum readers false fuel s)
    else some (.paren, s)

/-- Plus signs and the bounds behind them. With `trailing`, the last bound can be left out. -/
def passSum (readers : Readers) (trailing : Bool) : Nat → Scan → Option Scan
  | 0, _ => none
  | fuel + 1, s =>
    if s.atMarks "+" then do
      let s ← s.passMarks "+"
      if trailing && !s.atBound then some s
      else
        let (_, s) ← readBound readers fuel s
        passSum readers trailing fuel s
    else some s

/-- The bounds of an object type, one of which is no lifetime. -/
def passObject (readers : Readers) (sums : Bool) : Nat → Scan → Option Scan
  | 0, _ => none
  | fuel + 1, s => do
    let (isTrait, s) ← readBound readers fuel s
    if sums && s.atMarks "+" then
      let behind ← s.passMarks "+"
      if behind.atBound then
        if isTrait then passSum readers true fuel s else passObject readers sums fuel behind
      else if isTrait then some behind
      else none
    else if isTrait then some s
    else none

/-- One bound, and whether it is no lifetime. -/
def readBound (readers : Readers) : Nat → Scan → Option (Bool × Scan)
  | 0, _ => none
  | fuel + 1, s =>
    if s.atLifetime then do some (false, ← s.passLifetime)
    else if s.atGroup .paren then do
      some (true, ← s.inside .paren (passTrait readers fuel))
    else do some (true, ← passTrait readers fuel s)

/-- A bound that is a path. It has lifetimes of its own or a question mark, but not both. -/
def passTrait (readers : Readers) : Nat → Scan → Option Scan
  | 0, _ => none
  | fuel + 1, s => do
    let s ←
      if s.atWord "for" then do
        let s ← passBinder readers fuel s
        if s.atMarks "?" then none else some s
      else some (s.skipMarks "?")
    let (path, s) ← readPath readers false fuel s
    if path.bare && s.atSignature then passSignature readers fuel s else some s

def passBoundList (readers : Readers) (ends : List String) : Nat → Scan → Option Scan
  | 0, _ => none
  | fuel + 1, s =>
    if s.isDone || ends.any s.atMarks || s.atGroup .brace then some s
    else do
      let (_, s) ← readBound readers fuel s
      if s.atMarks "+" then passBoundList readers ends fuel (← s.passMarks "+") else some s

/-- The type of a function, with the types of its parameters. -/
def passFunctionType (readers : Readers) : Nat → Scan → Option Scan
  | 0, _ => none
  | fuel + 1, s => do
    let s := s.skipWord "unsafe"
    let s ←
      if s.atWord "extern" then do
        let s ← s.pass
        match s.ahead with
        | .literal _ :: _ => s.pass
        | _ => some s
      else some s
    let s ← (← s.passWord "fn").inside .paren
      (Scan.separated (passParameterType readers fuel) fuel)
    if s.atMarks "->" then Prod.snd <$> readType readers false fuel (← s.passMarks "->") else some s

def passParameterType (readers : Readers) : Nat → Scan → Option Scan
  | 0, _ => none
  | fuel + 1, s => do
    let s ← passAttributes readers fuel s
    if (s.atName || s.atWord "_" || s.atWord "self") && (s.beyond 1).atColon then
      Prod.snd <$> readType readers true fuel (← (← s.pass).passMarks ":")
    else if s.atMarks "..." then s.passMarks "..."
    else Prod.snd <$> readType readers true fuel s

def passBinder (readers : Readers) : Nat → Scan → Option Scan
  | 0, _ => none
  | fuel + 1, s => do passGenerics readers fuel (← (← s.passWord "for").passMarks "<")

/-- Generic parameters, of which the opening bracket has been passed. -/
def passGenerics (readers : Readers) : Nat → Scan → Option Scan
  | 0, _ => none
  | fuel + 1, s =>
    if s.atMarks ">" then s.passMarks ">"
    else do
      let s ← passParameter readers fuel (← passAttributes readers fuel s)
      if s.atMarks ">" then s.passMarks ">" else passGenerics readers fuel (← s.passMarks ",")

def passParameter (readers : Readers) : Nat → Scan → Option Scan
  | 0, _ => none
  | fuel + 1, s =>
    if s.atLifetime then do
      let s ← s.passLifetime
      if s.atMarks ":" then passLifetimeBounds fuel (← s.passMarks ":") else some s
    else if s.atWord "const" then do
      let s ← (← (← s.pass).passName).passMarks ":"
      let (_, s) ← readType readers true fuel s
      if s.atMarks "=" then passConstant readers (← s.passMarks "=") else some s
    else if s.atWord "_" then s.pass
    else do
      let s ← s.passName
      let s ←
        if s.atMarks ":" then do
          passBoundList readers [",", ">", "="] fuel (← s.passMarks ":")
        else some s
      if s.atMarks "=" then Prod.snd <$> readType readers true fuel (← s.passMarks "=")
      else some s

def passLifetimeBounds : Nat → Scan → Option Scan
  | 0, _ => none
  | fuel + 1, s =>
    if s.atLifetime then do
      let s ← s.passLifetime
      if s.atMarks "+" then passLifetimeBounds fuel (← s.passMarks "+") else some s
    else some s

end

end Derive

end SymbolicCalculus
