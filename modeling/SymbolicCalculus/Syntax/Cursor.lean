import SymbolicCalculus.SyntaxError.Basic

/-! A place between the tokens of a text, and the result of reading on from it. -/

set_option autoImplicit false

namespace SymbolicCalculus

/-- The tokens on both sides of a place. -/
structure Cursor where
  /-- The tokens passed, the nearest first. -/
  passed : List Token
  ahead : List Token
  deriving DecidableEq, Repr

namespace Cursor

def start (tokens : List Token) : Cursor := ⟨[], tokens⟩

/-- All tokens, on both sides, in the order of the text. -/
def tokens (c : Cursor) : List Token := c.passed.reverse ++ c.ahead

def remaining (c : Cursor) : Nat := c.ahead.length

def peek? (c : Cursor) : Option Token := c.ahead.find? (!·.isWhitespace)

def atEnd (c : Cursor) : Cursor := ⟨c.ahead.reverseAux c.passed, []⟩

/-- The empty place behind the last token of the text. -/
def endSpan (c : Cursor) : Span :=
  match c.ahead.getLast?.or c.passed.head? with
  | some token => .point token.span.stop
  | none => .point 0

/-- The number of parentheses that are open here. -/
def openParens (c : Cursor) : Nat := c.passed.foldr Token.nesting 0

/-- Behind the white space that comes next. -/
def skipWhitespace (c : Cursor) : Cursor :=
  ⟨(c.ahead.takeWhile Token.isWhitespace).reverseAux c.passed,
    c.ahead.dropWhile Token.isWhitespace⟩

theorem tokens_skipWhitespace (c : Cursor) : c.skipWhitespace.tokens = c.tokens := by
  simp [tokens, skipWhitespace, List.reverseAux_eq]

theorem remaining_skipWhitespace_le (c : Cursor) : c.skipWhitespace.remaining ≤ c.remaining := by
  have := congrArg List.length (List.takeWhile_append_dropWhile
    (p := Token.isWhitespace) (l := c.ahead))
  simp only [List.length_append] at this
  simp only [remaining, skipWhitespace]
  omega

end Cursor

/-- What came of reading on from `start`: a value and the place behind it, which is further on, or
an error and the place where reading stopped. -/
inductive Outcome (start : Cursor) (α : Type) where
  | success (value : α) (stop : Cursor) (advanced : stop.remaining < start.remaining)
  | failure (error : SyntaxError) (stop : Cursor)

namespace Outcome

variable {start : Cursor} {α β : Type}

def stop : Outcome start α → Cursor
  | success _ stop _ => stop
  | failure _ stop => stop

def result : Outcome start α → Except SyntaxError α
  | success value _ _ => .ok value
  | failure error _ => .error error

def map (f : α → β) : Outcome start α → Outcome start β
  | success value stop advanced => success (f value) stop advanced
  | failure error stop => failure error stop

/-- After a failure, reading has not moved. -/
def restore : Outcome start α → Outcome start α
  | success value stop advanced => success value stop advanced
  | failure error _ => failure error start

@[simp] theorem result_restore (outcome : Outcome start α) :
    outcome.restore.result = outcome.result := by
  cases outcome <;> rfl

@[simp] theorem result_map (f : α → β) (outcome : Outcome start α) :
    (outcome.map f).result = f <$> outcome.result := by
  cases outcome <;> rfl

end Outcome

/-- A way of reading on from any place. -/
def Parser (α : Type) : Type := (c : Cursor) → Outcome c α

namespace Cursor

def next : Parser Token := fun c =>
  match c.skipWhitespace, c.remaining_skipWhitespace_le with
  | ⟨passed, token :: ahead⟩, bound => .success token ⟨token :: passed, ahead⟩ bound
  | ⟨passed, []⟩, _ => .failure ⟨[c.endSpan], .unexpectedEnd⟩ ⟨passed, []⟩

/-- Reads a value that nothing but white space may follow. -/
def readWhole {α : Type} (parser : Parser α) : Parser α := fun c =>
  match parser c with
  | .failure error stop => .failure error stop
  | .success value stop advanced =>
    match stop.peek? with
    | none => .success value stop.atEnd (by
        simp only [remaining, atEnd, List.length_nil] at *
        omega)
    | some token =>
      if token.kind = .closeParen then
        .failure ⟨[token.span], .unclosedParenthesis false⟩ stop
      else .failure (.unexpected [.add, .mul] token) stop

/-- Reads one value after another, up to the first failure. -/
def readEach {α : Type} : List (Parser α) → Cursor → Except SyntaxError (List α × Cursor)
  | [], c => .ok ([], c)
  | parser :: parsers, c =>
    match parser c with
    | .failure error _ => .error error
    | .success value stop _ =>
      match readEach parsers stop with
      | .error error => .error error
      | .ok (values, last) => .ok (value :: values, last)

end Cursor

end SymbolicCalculus
