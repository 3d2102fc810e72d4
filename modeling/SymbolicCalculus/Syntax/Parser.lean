import SymbolicCalculus.Double.Decimal
import SymbolicCalculus.Syntax.Cursor
import SymbolicCalculus.Syntax.Tree
import SymbolicCalculus.Token.Scan

/-!
Reading syntax trees. Operands are read one by one, and an operand that a tighter operator follows
is completed before the operator in front of it takes it. A parser that fails has tried its parts
from the place of its last success, and stops there.
-/

set_option autoImplicit false

namespace SymbolicCalculus

namespace Parser

def token (kind : Token.Kind) : Parser Token := fun c =>
  match c.next with
  | .failure error stop => .failure error stop
  | .success token stop advanced =>
    if token.kind = kind then .success token stop advanced
    else .failure (.unexpected [kind] token) stop

def operator? (token : Token) : Option Operator :=
  match token.kind with
  | .add => some .add
  | .mul => some .mul
  | _ => none

def connective : Parser Connective := fun c =>
  match c.next with
  | .failure error stop => .failure error stop
  | .success token stop advanced =>
    match operator? token with
    | some operator => .success ⟨operator, token.span⟩ stop advanced
    | none => .failure (.unexpected [.add, .mul] token) stop

/-- Reads a numeral of either kind. One that is too large has been passed when it is refused. -/
def number : Parser Literal := fun c =>
  let numeral : Outcome c Token :=
    match token .int c with
    | .success token stop advanced => .success token stop advanced
    | .failure _ _ => (token .float c).restore
  match numeral with
  | .failure error stop => .failure error stop
  | .success token stop advanced =>
    let value := (Decimal.ofChars token.lexeme.toList).toDouble
    if value.isFinite then .success (.number value token.span) stop advanced
    else .failure ⟨[token.span], .numberTooLarge⟩ stop

def symbol : Parser Literal := fun c =>
  (token .name c).restore.map fun token => .symbol token.lexeme token.span

def literal : Parser Literal := fun c =>
  match c.peek?.map Token.kind with
  | some .name => (symbol c).restore
  | _ => (number c).restore

def nextOperator? (c : Cursor) : Option Operator := c.peek?.bind operator?

-- A call either starts behind a token that its caller has passed, or ranks below its caller:
-- expression, chain, primary, then paren, climb and complete, and extend last.
mutual

def primary (c : Cursor) : Outcome c Tree :=
  match c.peek? with
  | none => .failure ⟨[c.endSpan], .unexpectedEnd⟩ c
  | some token =>
    match token.kind with
    | .int | .float | .name => (literal c).restore.map .literal
    | .openParen => (paren c).restore
    | .closeParen =>
      if c.openParens = 0 then .failure ⟨[token.span], .unclosedParenthesis false⟩ c
      else .failure (.unexpected [.int, .float, .name, .openParen] token) c
    -- An operator, or a character that can stand nowhere.
    | _ => .failure (.unexpected [.int, .float, .name, .openParen] token) c
termination_by 8 * c.remaining + 2

def paren (c : Cursor) : Outcome c Tree :=
  match (token .openParen c).restore with
  | .failure error stop => .failure error stop
  | .success opening inside entered =>
    match inside.peek? with
    | some ⟨.closeParen, span, _⟩ =>
      .failure ⟨[opening.span.through span], .emptyParenthesis⟩ inside
    | _ =>
      match (expression inside).restore with
      | .failure error stop => .failure error stop
      | .success inner behind passed =>
        match behind.peek? with
        | none => .failure ⟨[opening.span], .unclosedParenthesis true⟩ behind
        | some next =>
          if next.kind = .closeParen then
            match (token .closeParen behind).restore with
            | .failure error stop => .failure error stop
            | .success closing stop left =>
              .success (.paren inner (opening.span.through closing.span)) stop (by omega)
          else .failure (.unexpected [.add, .mul, .closeParen] next) behind
termination_by 8 * c.remaining + 1

/-- Reads an expression, which no further operand may follow. -/
def expression (c : Cursor) : Outcome c Tree :=
  match chain .any c with
  | .failure error stop => .failure error stop
  | .success tree stop advanced =>
    match stop.peek? with
    | none => .success tree stop advanced
    | some next =>
      if next.kind.startsPrimary then .failure ⟨[tree.span, next.span], .missingOperator⟩ stop
      else .success tree stop advanced
termination_by 8 * c.remaining + 4

/-- Reads an operand and what operators of at least the given precedence join to it. -/
def chain (least : Precedence) (c : Cursor) : Outcome c Tree :=
  match (primary c).restore with
  | .failure error stop => .failure error stop
  | .success operand stop advanced => climb c operand stop advanced least
termination_by 8 * c.remaining + 3

/-- Joins operands to `lhs` as long as their operators bind at least as tightly as `least`. -/
def climb (start : Cursor) (lhs : Tree) (c : Cursor) (advanced : c.remaining < start.remaining)
    (least : Precedence) : Outcome start Tree :=
  if (nextOperator? c).any (least ≤ ·.precedence) then
    match extend lhs c with
    | .failure error stop => .failure error stop
    | .success longer stop further =>
      climb start longer stop (Nat.lt_trans further advanced) least
  else .success lhs c advanced
termination_by 8 * c.remaining + 1

/-- Joins one completed operand to `lhs`. -/
def extend (lhs : Tree) (c : Cursor) : Outcome c Tree :=
  match (connective c).restore with
  | .failure error stop => .failure error stop
  | .success connective behind passed =>
    match (primary behind).restore with
    | .failure error stop => .failure error stop
    | .success operand stop advanced =>
      match complete c connective operand stop (Nat.lt_trans advanced passed) with
      | .failure error last => .failure error last
      | .success rhs last further => .success (lhs.join connective rhs) last further
termination_by 8 * c.remaining

/-- Joins to `rhs`, the operand behind `connective`, what tighter operators follow it. -/
def complete (start : Cursor) (connective : Connective) (rhs : Tree) (c : Cursor)
    (advanced : c.remaining < start.remaining) : Outcome start Tree :=
  match nextOperator? c with
  | none => .success rhs c advanced
  | some next =>
    if connective.operator.precedence < next.precedence then
      match extend rhs c with
      | .failure error stop => .failure error stop
      | .success longer stop further =>
        match climb c longer stop further next.precedence with
        | .failure error last => .failure error last
        | .success completed last furthest =>
          complete start connective completed last (Nat.lt_trans furthest advanced)
    else .success rhs c advanced
termination_by 8 * c.remaining + 1

end

end Parser

namespace Tree

def parse (text : String) : Except SyntaxError Tree :=
  (Cursor.readWhole Parser.expression (.start (Token.scan text))).result

end Tree

end SymbolicCalculus
