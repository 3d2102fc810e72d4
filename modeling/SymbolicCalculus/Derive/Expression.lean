import SymbolicCalculus.Derive.Pattern
import SymbolicCalculus.Derive.Reader

/-!
A reader of Rust expressions, one that tags can be read with. What is read is written down again
word by word, with the numbers of fields in their shortest form. The number `fuel` bounds how deep
the functions call each other.

Some kinds of expressions are left out and not read: `match`, the loops `loop`, `while` and `for`,
with a label or without, `return`, `break`, `continue` and `yield`, and blocks with an item among
their statements.
-/

set_option autoImplicit false

namespace SymbolicCalculus

namespace Derive

/-- How strongly an operator binds; assignments bind least. -/
inductive Strength where
  /-- Weaker than all operators. -/
  | open
  | assign
  | range
  | or
  | and
  | compare
  | bitOr
  | bitXor
  | bitAnd
  | shift
  | sum
  | product
  | cast
  deriving DecidableEq, Repr

def Strength.rank : Strength → Nat
  | .open => 0
  | .assign => 1
  | .range => 2
  | .or => 3
  | .and => 4
  | .compare => 5
  | .bitOr => 6
  | .bitXor => 7
  | .bitAnd => 8
  | .shift => 9
  | .sum => 10
  | .product => 11
  | .cast => 12

/-- What counts of an expression for what may follow it. -/
inductive Shape where
  | range
  | comparison
  | block
  | bracedMacro
  | other
  deriving DecidableEq, Repr

/-- The binary operators. Of two that start alike the longer comes first. -/
def binaryOperators : List (String × Strength) :=
  [("+=", .assign), ("-=", .assign), ("*=", .assign), ("/=", .assign), ("%=", .assign),
    ("^=", .assign), ("&=", .assign), ("|=", .assign), ("<<=", .assign), (">>=", .assign),
    ("&&", .and), ("||", .or), ("<<", .shift), (">>", .shift), ("==", .compare), ("<=", .compare),
    ("!=", .compare), (">=", .compare), ("+", .sum), ("-", .sum), ("*", .product), ("/", .product),
    ("%", .product), ("^", .bitXor), ("&", .bitAnd), ("|", .bitOr), ("<", .compare),
    (">", .compare)]

namespace Scan

def binaryOperator? (s : Scan) : Option (String × Strength) :=
  binaryOperators.find? fun operator => s.atMarks operator.1

def atAssignment (s : Scan) : Bool := s.atMarks "=" && !s.atMarks "=>"

/-- How strongly what comes next would bind. -/
def nextStrength (s : Scan) : Strength :=
  match s.binaryOperator? with
  | some (_, strength) => strength
  | none =>
    if s.atAssignment then .assign
    else if s.atMarks ".." then .range
    else if s.atWord "as" then .cast
    else .open

/-- A range whose end is left out stops where no operand can start. -/
def atRangeEnd (s : Scan) (structs : Bool) : Bool :=
  s.isDone || s.atDot || (!structs && s.atGroup .brace) || s.atWord "as"
    || [",", ";", "?", "=>", "=", "+", "/", "%", "^", ">", "<=", "!=", "-=", "*=", "&=", "|=",
      "<<="].any s.atMarks

/-- The points of a range, and whether it holds its end. -/
def readLimits (s : Scan) : Option (Bool × Scan) :=
  if s.atMarks "..=" then (s.passMarks "..=").map (true, ·)
  else if s.atMarks "..." then none
  else (s.passMarks "..").map (false, ·)

def atClosure (s : Scan) : Bool :=
  let behind := s.beyond 1
  s.atMarks "|" || s.atWord "move" || s.atWord "static"
    || (s.atWord "const" && !behind.atGroup .brace)
    || (s.atWord "async" && (behind.atMarks "|"
      || (behind.atWord "move" && !(behind.beyond 1).atGroup .brace)))
    || (s.atWord "for" && behind.atMarks "<")

/-- Does a block start here, with a label or with words in front that say what kind it is? -/
def atBlock (s : Scan) : Bool :=
  let behind := s.beyond 1
  s.atGroup .brace
    || (["unsafe", "const", "try", "async"].any s.atWord && behind.atGroup .brace)
    || (s.atWord "async" && behind.atWord "move" && (behind.beyond 1).atGroup .brace)
    || (s.atLifetime && (behind.beyond 1).atColon && (behind.beyond 2).atGroup .brace)

/-- Does a path start here? A path with the keyword `try` needs more than that. -/
def atPath (s : Scan) : Bool :=
  s.atName || s.atPlaceWord || s.atMarks "::" || s.atMarks "<"
    || (s.atWord "try" && ((s.beyond 1).atMarks "!" || (s.beyond 1).atMarks "::"))

/-- The number of a field behind a point, or several with points between that were read as one
numeral, and whether that numeral ends in a point. -/
def readIndices (s : Scan) : Option (Bool × Scan) :=
  match s.ahead with
  | .literal text :: ahead =>
    let parts := text.splitOn "."
    let trailing := 1 < parts.length && parts.getLast? = some ""
    let numbers := if trailing then parts.dropLast else parts
    let first := (numbers.take 1).foldlM (fun s part => s.writeIndex part.toList) { s with ahead }
    let all := first.bind fun s => (numbers.drop 1).foldlM (fun s part =>
      (s.write ["."]).writeIndex part.toList) s
    all.map (trailing, ·)
  | _ => none

/-- Does the last word that was written close a block? -/
def endsInBrace (s : Scan) : Bool := s.written.head? == some "\x7d"

def passMacroStatement? (fuel : Nat) (s : Scan) : Option Scan := do
  let s ← passPlainPath fuel s
  if !s.atMarks "!" then none
  else
    let inner := s.beyond 1
    let behind := s.beyond 2
    if inner.atName || inner.atWord "try" then
      let s ← (← s.pass).pass
      match s.ahead with
      | .group delimiter _ :: _ =>
        let s ← s.pass
        if delimiter = .brace then some s else s.passMarks ";"
      | _ => none
    else if inner.atGroup .brace && !(behind.atDot || behind.atMarks "?") then
      some ((← s.passMacro).skipMarks ";")
    else none

end Scan

/-- The words of a statement that is an expression: those of its attributes, of its first part and
of the rest. Attributes in front of a range are about all of it only if it stands in round brackets.
A macro call with braces would end the statement if it did not stand in them. -/
def statementWords (attributes : List String) (isCall : Bool) (first rest : List String)
    (isRange : Bool) : List String :=
  if isRange && !attributes.isEmpty then attributes ++ "(" :: (first ++ rest ++ [")"])
  else if isCall && !rest.isEmpty then "(" :: (attributes ++ first ++ ")" :: rest)
  else attributes ++ first ++ rest

mutual

/-- The readers with a given fuel. -/
def readersOf : Nat → Readers
  | 0 => ⟨fun _ => none, fun _ => none⟩
  | fuel + 1 => ⟨fun s => Prod.snd <$> readExpression true fuel s, passBlock true fuel⟩

/-- An expression. Braces behind a path are the fields of a value only if `structs` is set. -/
def readExpression (structs : Bool) : Nat → Scan → Option (Shape × Scan)
  | 0, _ => none
  | fuel + 1, s => do
    let (shape, s) ← readOperand structs fuel s
    readOperators structs .open shape fuel s

def passExpression : Nat → Scan → Option Scan
  | 0, _ => none
  | fuel + 1, s => Prod.snd <$> readExpression true fuel s

/-- Operators that bind at least as strongly as `least`, with their right operands. A range is no
left operand, and of comparisons there can be only one. -/
def readOperators (structs : Bool) (least : Strength) (lhs : Shape) :
    Nat → Scan → Option (Shape × Scan)
  | 0, _ => none
  | fuel + 1, s =>
    if lhs = .range then some (lhs, s)
    else
      match s.binaryOperator? with
      | some (marks, strength) =>
        if strength.rank < least.rank then some (lhs, s)
        else if strength = .compare && lhs = .comparison then none
        else do
          let s ← passRhs structs strength fuel (← s.passMarks marks)
          readOperators structs least (if strength = .compare then .comparison else .other) fuel s
      | none =>
        if least.rank ≤ Strength.assign.rank && s.atAssignment then do
          let s ← passRhs structs .assign fuel (← s.passMarks "=")
          readOperators structs least .other fuel s
        else if least.rank ≤ Strength.range.rank && s.atMarks ".." then do
          some (.range, ← passRange structs fuel s)
        else if s.atWord "as" then do
          let (_, s) ← readType (readersOf fuel) false fuel (← s.pass)
          if s.atDot || s.atMarks "?" || s.atGroup .bracket || s.atGroup .paren then none
          else readOperators structs least .other fuel s
        else some (lhs, s)

/-- The right operand of an operator, with all operators that bind more strongly. -/
def passRhs (structs : Bool) (strength : Strength) : Nat → Scan → Option Scan
  | 0, _ => none
  | fuel + 1, s => do
    let (shape, s) ← readOperand structs fuel s
    passTighter structs strength shape fuel s

/-- The operators that belong to a right operand. Assignments group to the right. -/
def passTighter (structs : Bool) (strength : Strength) (rhs : Shape) : Nat → Scan → Option Scan
  | 0, _ => none
  | fuel + 1, s => do
    let next := s.nextStrength
    if strength.rank < next.rank || (next = .assign && strength = .assign) then
      let (shape, behind) ← readOperators structs next rhs fuel s
      if behind.ahead.length < s.ahead.length then passTighter structs strength shape fuel behind
      else some s
    else some s

def passRange (structs : Bool) : Nat → Scan → Option Scan
  | 0, _ => none
  | fuel + 1, s => do
    let (closed, s) ← s.readLimits
    if !closed && s.atRangeEnd structs then some s else passRhs structs .range fuel s

/-- An operand, with what stands in front of and behind it. -/
def readOperand (structs : Bool) : Nat → Scan → Option (Shape × Scan)
  | 0, _ => none
  | fuel + 1, s => do
    let start := s
    let s ← passAttributes (readersOf fuel) fuel s
    if s.atMarks "&" then
      let s ← s.passMarks "&"
      let behind := s.beyond 1
      let raw := s.atWord "raw" && (behind.atWord "mut" || behind.atWord "const")
      let s ← if raw then (← s.pass).pass else some (s.skipWord "mut")
      let (_, s) ← readOperand structs fuel s
      some (.other, s)
    else if s.atMarks "*" || s.atMarks "!" || s.atMarks "-" then
      let (_, s) ← readOperand structs fuel (← s.pass)
      some (.other, s)
    else
      let (shape, behind) ← readAtom structs fuel s
      let (shape, behind) ← readTrailers shape fuel behind
      -- A range takes no attributes.
      if shape = .range && s.ahead.length < start.ahead.length then none
      else some (shape, behind)

def readAtom (structs : Bool) : Nat → Scan → Option (Shape × Scan)
  | 0, _ => none
  | fuel + 1, s =>
    if s.atLiteral || s.atWord "_" then do some (.other, ← s.pass)
    else if s.atWord "if" || s.atBlock then do
      some (if s.atWord "async" then .other else .block, ← passBlocks fuel s)
    else if s.atClosure then do some (.other, ← passClosure structs fuel s)
    else if s.atPath then readPathValue structs fuel s
    else if s.atGroup .paren then do
      some (.other, ← s.inside .paren (Scan.separated (passExpression fuel) fuel))
    else if s.atGroup .bracket then do some (.other, ← s.inside .bracket (passItems fuel))
    else if s.atWord "let" then do
      let s ← passAlternatives (readersOf fuel) fuel (← s.pass)
      let (shape, s) ← readOperand structs fuel (← s.passMarks "=")
      let (_, s) ← readOperators structs .compare shape fuel s
      some (.other, s)
    else if s.atMarks ".." then do some (.range, ← passRange structs fuel s)
    else none

def passItems : Nat → Scan → Option Scan
  | 0, _ => none
  | fuel + 1, s =>
    if s.isDone then some s
    else do
      let s ← passExpression fuel s
      if s.atMarks ";" then passExpression fuel (← s.passMarks ";")
      else if s.isDone then some s
      else Scan.separated (passExpression fuel) fuel (← s.passMarks ",")

def readPathValue (structs : Bool) : Nat → Scan → Option (Shape × Scan)
  | 0, _ => none
  | fuel + 1, s => do
    let (path, s) ← readQualifiedPath (readersOf fuel) true fuel s
    if path.plain && s.atBang then
      let shape := if (s.beyond 1).atGroup .brace then Shape.bracedMacro else .other
      some (shape, ← s.passMacro)
    else if structs && s.atGroup .brace then
      some (.other, ← s.inside .brace (passFieldValues fuel))
    else some (.other, s)

/-- The values of fields with commas between them. The value that gives all other fields comes
last. -/
def passFieldValues : Nat → Scan → Option Scan
  | 0, _ => none
  | fuel + 1, s =>
    if s.isDone then some s
    else if s.atMarks ".." then do
      let s ← s.passMarks ".."
      if s.isDone then some s else passExpression fuel s
    else do
      let s ← passAttributes (readersOf fuel) fuel s
      let named := s.atName
      let s ← s.passMember
      let s ←
        if !named || s.atColon then do passExpression fuel (← s.passMarks ":") else some s
      if s.isDone then some s else passFieldValues fuel (← s.passMarks ",")

/-- Calls, fields, methods, indexing and question marks. A range has no fields. -/
def readTrailers (shape : Shape) : Nat → Scan → Option (Shape × Scan)
  | 0, _ => none
  | fuel + 1, s =>
    if s.atGroup .paren then do
      readTrailers .other fuel
        (← s.inside .paren (Scan.separated (passExpression fuel) fuel))
    else if shape ≠ .range && s.atDot then do
      readTrailers .other fuel (← passField fuel (← s.passMarks "."))
    else if s.atGroup .bracket then do
      readTrailers .other fuel (← s.inside .bracket (passExpression fuel))
    else if shape ≠ .range && s.atMarks "?" then do
      readTrailers .other fuel (← s.passMarks "?")
    else some (shape, s)

/-- The field or method behind a point. -/
def passField : Nat → Scan → Option Scan
  | 0, _ => none
  | fuel + 1, s =>
    if s.atNumeral then do
      let (trailing, s) ← s.readIndices
      -- The point of the next field was read as the end of this numeral.
      if trailing then passNamedField fuel (s.write ["."]) else some s
    else passNamedField fuel s

/-- A field or method, but not several numbers that were read as one numeral. -/
def passNamedField : Nat → Scan → Option Scan
  | 0, _ => none
  | fuel + 1, s =>
    if s.atWord "await" then s.pass
    else do
      let named := s.atName
      let s ← s.passMember
      if named && s.atMarks "::" then
        let s ← passArguments (readersOf fuel) fuel (← s.passMarks "::")
        s.inside .paren (Scan.separated (passExpression fuel) fuel)
      else some s

def passClosure (structs : Bool) : Nat → Scan → Option Scan
  | 0, _ => none
  | fuel + 1, s => do
    let s ← if s.atWord "for" then passBinder (readersOf fuel) fuel s else some s
    let s := (((s.skipWord "const").skipWord "static").skipWord "async").skipWord "move"
    let s ← passParameters fuel (← s.passMarks "|")
    if s.atMarks "->" then
      let (_, s) ← readType (readersOf fuel) true fuel (← s.passMarks "->")
      passBlock false fuel s
    else Prod.snd <$> readExpression structs fuel s

def passParameters : Nat → Scan → Option Scan
  | 0, _ => none
  | fuel + 1, s =>
    if s.atMarks "|" then s.passMarks "|"
    else do
      let s ← passAttributes (readersOf fuel) fuel s
      let (_, s) ← readPattern (readersOf fuel) fuel s
      let s ←
        if s.atMarks ":" then do
          Prod.snd <$> readType (readersOf fuel) true fuel (← s.passMarks ":")
        else some s
      if s.atMarks "|" then s.passMarks "|" else passParameters fuel (← s.passMarks ",")

/-- A condition, a block, and perhaps what is done otherwise. -/
def passIf : Nat → Scan → Option Scan
  | 0, _ => none
  | fuel + 1, s => do
    let (_, s) ← readExpression false fuel (← s.passWord "if")
    let s ← passBlock false fuel s
    if s.atWord "else" then
      let s ← s.pass
      if s.atWord "if" then passIf fuel s else passBlock false fuel s
    else some s

/-- A choice between blocks, or a block with what stands in front of it. -/
def passBlocks : Nat → Scan → Option Scan
  | 0, _ => none
  | fuel + 1, s =>
    if s.atWord "if" then passIf fuel s
    else if s.atLifetime then do passBlock true fuel (← (← s.passLifetime).passMarks ":")
    else if s.atWord "try" then do passBlock false fuel (← s.pass)
    else if s.atWord "async" then do passBlock false fuel ((← s.pass).skipWord "move")
    else passBlock true fuel ((s.skipWord "unsafe").skipWord "const")

/-- Statements between braces. Where attributes are allowed, some may stand inside in front. -/
def passBlock (attributes : Bool) : Nat → Scan → Option Scan
  | 0, _ => none
  | fuel + 1, s => s.inside .brace fun s => do
    passStatements fuel (← if attributes then passInnerAttributes fuel s else some s)

def passInnerAttributes : Nat → Scan → Option Scan
  | 0, _ => none
  | fuel + 1, s =>
    if s.atMarks "#" && (s.beyond 1).atMarks "!" then do
      passInnerAttributes fuel
        (← (← (← s.pass).pass).inside .bracket (passMeta (readersOf fuel) fuel))
    else some s

/-- Statements up to the end. Only the last expression, and what ends in a block, needs no
semicolon. -/
def passStatements : Nat → Scan → Option Scan
  | 0, _ => none
  | fuel + 1, s =>
    if s.isDone then some s
    else if s.atMarks ";" then do passStatements fuel (← s.passMarks ";")
    else do
      let (_, attributes, behind) ← s.captured fun s =>
        ((), ·) <$> passAttributes (readersOf fuel) fuel s
      let s := behind.write attributes
      match s.passMacroStatement? fuel with
      | some behind => passStatements fuel behind
      | none =>
        if s.atWord "let" then passStatements fuel (← passLet fuel s)
        -- A statement that starts with this word would be an item.
        else if s.atWord "crate" && !(s.beyond 1).atMarks "::" then none
        else
          let (shape, s) ← readStatement attributes fuel behind
          if s.atMarks ";" then passStatements fuel (← s.passMarks ";")
          else if s.isDone || shape = .block || shape = .bracedMacro then passStatements fuel s
          else none

/-- A statement that gives names to the parts of a value. What is done if that fails cannot follow
a value that ends in a brace. -/
def passLet : Nat → Scan → Option Scan
  | 0, _ => none
  | fuel + 1, s => do
    let (_, s) ← readPattern (readersOf fuel) fuel (← s.passWord "let")
    let s ←
      if s.atMarks ":" then do
        Prod.snd <$> readType (readersOf fuel) true fuel (← s.passMarks ":")
      else some s
    let s ←
      if s.atMarks "=" then do
        let s ← passExpression fuel (← s.passMarks "=")
        if !s.endsInBrace && s.atWord "else" then passBlock false fuel (← s.pass) else some s
      else some s
    s.passMarks ";"

/-- A statement that is an expression, behind its attributes, which are not written yet. One that
starts with a block ends there, unless it goes on with a point or a question mark. -/
def readStatement (attributes : List String) : Nat → Scan → Option (Shape × Scan)
  | 0, _ => none
  | fuel + 1, s => do
    let (head, first, s) ← s.captured fun s =>
      if (s.atWord "if" || s.atBlock) && !s.atWord "async" then (.block, ·) <$> passBlocks fuel s
      else if s.atPath then readPathValue true fuel s
      else readOperand true fuel s
    let dotted := s.atDot || s.atMarks "?"
    let (shape, rest, s) ← s.captured fun s =>
      if head = .block && !dotted then some (head, s)
      else do
        let (shape, s) ← readTrailers head fuel s
        readOperators true .open shape fuel s
    let isCall := head = .bracedMacro && !dotted
    some (shape, s.write (statementWords attributes isCall first rest (shape = .range)))

end

/-- Enough fuel for pieces: between two pieces, fewer than thirty functions call each other. -/
def fuelFor (pieces : List Piece) : Nat := 32 * (Piece.countOfAll pieces + 2)

/-- The words of pieces that are an expression as a whole, and whether it was read down into all
groups. -/
def wholeExpression? (pieces : List Piece) : Option (List String × Bool) :=
  match readExpression true (fuelFor pieces) (.start pieces) with
  | some (_, ⟨[], written, leftover⟩) => some (written.reverse, !leftover)
  | _ => none

/-- The reader for the tags of a declaration that is given as text. -/
def readWords? : ExpressionReader := ExpressionReader.ofWhole wholeExpression?

end Derive

end SymbolicCalculus
