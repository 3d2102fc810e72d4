import SymbolicCalculus.Proofs.Syntax.Cursor

/-!
What the readers of tokens, literals and parentheses do, by the token that comes next.
-/

set_option autoImplicit false

namespace SymbolicCalculus

@[simp] theorem Outcome.restore_success {start : Cursor} {α : Type} (value : α) (stop : Cursor)
    (advanced : stop.remaining < start.remaining) :
    (success value stop advanced).restore = success value stop advanced := rfl

@[simp] theorem Outcome.restore_failure {start : Cursor} {α : Type} (error : SyntaxError)
    (stop : Cursor) : (failure error stop : Outcome start α).restore = failure error start := rfl

@[simp] theorem Outcome.map_success {start : Cursor} {α β : Type} (f : α → β) (value : α)
    (stop : Cursor) (advanced : stop.remaining < start.remaining) :
    (success value stop advanced).map f = success (f value) stop advanced := rfl

@[simp] theorem Outcome.map_failure {start : Cursor} {α β : Type} (f : α → β)
    (error : SyntaxError) (stop : Cursor) :
    (failure error stop : Outcome start α).map f = failure error stop := rfl

namespace Parser

/-- The tokens that an operand can start with, as errors name them. -/
def operandKinds : List Token.Kind := [.int, .float, .name, .openParen]

section

variable {c : Cursor} {next : Token} {rest : List Token}

theorem token_of_kind {kind : Token.Kind} (ahead : c.future = next :: rest)
    (same : next.kind = kind) :
    ∃ d advanced, token kind c = .success next d advanced ∧ c.Passes [next] d := by
  obtain ⟨d, advanced, read, passes⟩ := c.next_of_future ahead
  exact ⟨d, advanced, by simp only [token, read, same, if_true], passes⟩

theorem token_of_other {kind : Token.Kind} (ahead : c.future = next :: rest)
    (other : next.kind ≠ kind) :
    ∃ d, token kind c = .failure (.unexpected [kind] next) d := by
  obtain ⟨d, advanced, read, _⟩ := c.next_of_future ahead
  exact ⟨d, by simp only [token, read, other, if_false]⟩

theorem connective_of_operator {op : Operator} (ahead : c.future = next :: rest)
    (sign : operator? next = some op) :
    ∃ d advanced, connective c = .success ⟨op, next.span⟩ d advanced ∧ c.Passes [next] d := by
  obtain ⟨d, advanced, read, passes⟩ := c.next_of_future ahead
  exact ⟨d, advanced, by simp only [connective, read, sign], passes⟩

theorem passes_of_next {d : Cursor} {token : Token} {advanced : d.remaining < c.remaining}
    (h : c.next = .success token d advanced) : c.Passes [token] d := by
  cases ahead : c.future with
  | nil =>
    obtain ⟨_, fails⟩ := Cursor.next_of_end ahead
    rw [fails] at h
    contradiction
  | cons next rest =>
    obtain ⟨_, _, reads, passes⟩ := Cursor.next_of_future ahead
    rw [reads] at h
    cases h
    exact passes

theorem passes_of_token {kind : Token.Kind} {d : Cursor} {token : Token}
    {advanced : d.remaining < c.remaining} (h : Parser.token kind c = .success token d advanced) :
    token.kind = kind ∧ c.Passes [token] d := by
  unfold Parser.token at h
  split at h
  · contradiction
  · rename_i reads
    split at h
    · rename_i same
      cases h
      exact ⟨same, passes_of_next reads⟩
    · contradiction

theorem passes_of_connective {d : Cursor} {sign : Connective} {advanced : d.remaining < c.remaining}
    (h : connective c = .success sign d advanced) :
    ∃ token, operator? token = some sign.operator ∧ token.span = sign.span ∧
      c.Passes [token] d := by
  unfold connective at h
  split at h
  · contradiction
  · rename_i token stop _ reads
    split at h
    · rename_i op kind
      cases h
      exact ⟨token, kind, rfl, passes_of_next reads⟩
    · contradiction

/-- A numeral of either kind is read, and then its value decides. -/
theorem number_of_numeral (ahead : c.future = next :: rest)
    (numeral : next.kind.isNumeral = true) :
    ∃ d advanced, c.Passes [next] d ∧
      number c =
        if next.value.isFinite then .success (.number next.value next.span) d advanced
        else .failure ⟨[next.span], .numberTooLarge⟩ d := by
  by_cases int : next.kind = .int
  · obtain ⟨d, advanced, read, passes⟩ := token_of_kind ahead int
    exact ⟨d, advanced, passes, by simp only [number, read]; rfl⟩
  · have float : next.kind = .float := by
      revert numeral int
      cases next.kind <;> simp [Token.Kind.isNumeral]
    -- The other kind of numeral is tried first, which leaves the cursor where it was.
    obtain ⟨_, other⟩ := token_of_other ahead int
    obtain ⟨d, advanced, read, passes⟩ := token_of_kind ahead float
    exact ⟨d, advanced, passes, by simp only [number, other, read, Outcome.restore_success]; rfl⟩

theorem literal_of_numeral (ahead : c.future = next :: rest)
    (numeral : next.kind.isNumeral = true) : literal c = (number c).restore := by
  have other : next.kind ≠ .name := by
    intro same
    simp [same, Token.Kind.isNumeral] at numeral
  unfold literal
  rw [c.peek?_eq, ahead]
  simp only [List.head?_cons, Option.map_some]
  split
  · rename_i same
    exact absurd (Option.some.inj same) other
  · rfl

theorem literal_of_name (ahead : c.future = next :: rest) (name : next.kind = .name) :
    ∃ d advanced, c.Passes [next] d ∧
      literal c = .success (.symbol next.lexeme next.span) d advanced := by
  obtain ⟨d, advanced, read, passes⟩ := token_of_kind ahead name
  refine ⟨d, advanced, passes, ?_⟩
  unfold literal
  rw [c.peek?_eq, ahead]
  simp only [List.head?_cons, Option.map_some, name, symbol, read, Outcome.restore_success,
    Outcome.map_success]

/-! ## Operands -/

theorem primary_of_end (ahead : c.future = []) :
    primary c = .failure ⟨[c.endSpan], .unexpectedEnd⟩ c := by
  unfold primary
  rw [c.peek?_eq, ahead]
  rfl

/-- What the reader of operands does at a token. -/
theorem primary_of_future (ahead : c.future = next :: rest) :
    primary c =
      match next.kind with
      | .int | .float | .name => (literal c).restore.map .literal
      | .openParen => (paren c).restore
      | .closeParen =>
        if c.openParens = 0 then .failure ⟨[next.span], .unclosedParenthesis false⟩ c
        else .failure (.unexpected operandKinds next) c
      | _ => .failure (.unexpected operandKinds next) c := by
  unfold primary
  rw [c.peek?_eq, ahead]
  simp only [List.head?_cons]
  rfl

theorem primary_of_numeral (ahead : c.future = next :: rest)
    (numeral : next.kind.isNumeral = true) (fits : next.Fits) :
    ∃ d advanced, c.Passes [next] d ∧
      primary c = .success (.literal (.number next.value next.span)) d advanced := by
  obtain ⟨d, advanced, passes, read⟩ := number_of_numeral ahead numeral
  rw [if_pos (fits numeral)] at read
  refine ⟨d, advanced, passes, ?_⟩
  rw [primary_of_future ahead, literal_of_numeral ahead numeral, read]
  revert numeral
  cases next.kind <;> simp [Token.Kind.isNumeral]

theorem primary_of_overflow (ahead : c.future = next :: rest)
    (numeral : next.kind.isNumeral = true) (infinite : ¬next.value.isFinite = true) :
    primary c = .failure ⟨[next.span], .numberTooLarge⟩ c := by
  obtain ⟨_, _, _, read⟩ := number_of_numeral ahead numeral
  rw [if_neg infinite] at read
  rw [primary_of_future ahead, literal_of_numeral ahead numeral, read]
  revert numeral
  cases next.kind <;> simp [Token.Kind.isNumeral]

theorem primary_of_name (ahead : c.future = next :: rest) (name : next.kind = .name) :
    ∃ d advanced, c.Passes [next] d ∧
      primary c = .success (.literal (.symbol next.lexeme next.span)) d advanced := by
  obtain ⟨d, advanced, passes, read⟩ := literal_of_name ahead name
  refine ⟨d, advanced, passes, ?_⟩
  simp only [primary_of_future ahead, name, read, Outcome.restore_success, Outcome.map_success]

/-- A token that starts no operand is refused. -/
theorem primary_of_other (ahead : c.future = next :: rest)
    (other : next.kind.startsPrimary = false) :
    primary c = .failure
      (if next.kind = .closeParen ∧ c.openParens = 0 then
        ⟨[next.span], .unclosedParenthesis false⟩
      else .unexpected operandKinds next) c := by
  rw [primary_of_future ahead]
  revert other
  cases next.kind <;> simp [Token.Kind.startsPrimary]
  split <;> rfl

theorem primary_of_opening (ahead : c.future = next :: rest) (opens : next.kind = .openParen) :
    primary c = (paren c).restore := by
  simp only [primary_of_future ahead, opens]

end

/-! ## Parentheses -/

section

variable {c inside behind : Cursor} {opening next : Token} {rest : List Token} {inner : Tree}
  {entered : inside.remaining < c.remaining} {passed : behind.remaining < inside.remaining}

theorem paren_of_empty (enter : token .openParen c = .success opening inside entered)
    (ahead : inside.future = next :: rest) (closes : next.kind = .closeParen) :
    paren c = .failure ⟨[opening.span.through next.span], .emptyParenthesis⟩ inside := by
  obtain ⟨kind, span, lexeme⟩ := next
  obtain rfl : kind = .closeParen := closes
  rw [paren, enter, Outcome.restore_success]
  simp only [inside.peek?_eq, ahead, List.head?_cons]

/-- Something other than a closing parenthesis comes next. -/
def Occupied (c : Cursor) : Prop := ∀ next ∈ c.future.head?, next.kind ≠ .closeParen

theorem paren_of_failure (enter : token .openParen c = .success opening inside entered)
    (occupied : Occupied inside) {error : SyntaxError} {stop : Cursor}
    (fails : expression inside = .failure error stop) : paren c = .failure error inside := by
  rw [paren, enter, Outcome.restore_success]
  simp only [inside.peek?_eq, fails, Outcome.restore_failure]
  split
  · rename_i peeked
    exact absurd rfl (occupied _ peeked)
  · rfl

theorem paren_of_unclosed (enter : token .openParen c = .success opening inside entered)
    (occupied : Occupied inside) (reads : expression inside = .success inner behind passed)
    (ahead : behind.future = []) :
    paren c = .failure ⟨[opening.span], .unclosedParenthesis true⟩ behind := by
  rw [paren, enter, Outcome.restore_success]
  simp only [inside.peek?_eq, reads, Outcome.restore_success, behind.peek?_eq, ahead, List.head?_nil]
  split
  · rename_i peeked
    exact absurd rfl (occupied _ peeked)
  · rfl

theorem paren_of_other (enter : token .openParen c = .success opening inside entered)
    (occupied : Occupied inside) (reads : expression inside = .success inner behind passed)
    (ahead : behind.future = next :: rest) (other : next.kind ≠ .closeParen) :
    paren c = .failure (.unexpected [.add, .mul, .closeParen] next) behind := by
  rw [paren, enter, Outcome.restore_success]
  simp only [inside.peek?_eq, reads, Outcome.restore_success, behind.peek?_eq, ahead,
    List.head?_cons, other, if_false]
  split
  · rename_i peeked
    exact absurd rfl (occupied _ peeked)
  · rfl

theorem paren_of_left {closing : Token} {stop : Cursor} {left : stop.remaining < behind.remaining}
    (enter : token .openParen c = .success opening inside entered) (occupied : Occupied inside)
    (reads : expression inside = .success inner behind passed)
    (leave : token .closeParen behind = .success closing stop left) :
    paren c =
      .success (.paren inner (opening.span.through closing.span)) stop (by omega) := by
  obtain ⟨closes, passes⟩ := passes_of_token leave
  rw [paren, enter, Outcome.restore_success]
  simp only [inside.peek?_eq, reads, Outcome.restore_success, behind.peek?_eq, passes.future,
    List.singleton_append, List.head?_cons, closes, if_true, leave]
  split
  · rename_i peeked
    exact absurd rfl (occupied _ peeked)
  · rfl

theorem paren_of_closed (enter : token .openParen c = .success opening inside entered)
    (occupied : Occupied inside) (reads : expression inside = .success inner behind passed)
    (ahead : behind.future = next :: rest) (closes : next.kind = .closeParen) :
    ∃ d advanced, behind.Passes [next] d ∧
      paren c = .success (.paren inner (opening.span.through next.span)) d advanced := by
  obtain ⟨d, left, leave, passes⟩ := token_of_kind ahead closes
  exact ⟨d, by omega, passes, paren_of_left enter occupied reads leave⟩

end

end Parser

end SymbolicCalculus
