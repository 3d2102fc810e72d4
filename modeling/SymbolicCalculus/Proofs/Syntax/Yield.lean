import SymbolicCalculus.Proofs.Syntax.Recognition

/-!
What a value was read from. A reader that succeeds stops right behind the last token of its value,
and the tokens between are the parts of the value, each once and in order. A reader that fails and is
restored has not moved.
-/

set_option autoImplicit false

namespace SymbolicCalculus

/-! ## Parts -/

/-- What one token puts into a value. A parenthesis puts in the outer end of its place. -/
inductive Part where
  | number (value : Double) (span : Span)
  | name (name : String) (span : Span)
  | sign (op : Operator) (span : Span)
  | opening (start : Nat)
  | closing (stop : Nat)
  deriving DecidableEq, Repr

/-- White space and symbols belong to no value. -/
def Token.part? (token : Token) : Option Part :=
  match token.kind with
  | .int | .float => some (.number token.value token.span)
  | .name => some (.name token.lexeme token.span)
  | .add => some (.sign .add token.span)
  | .mul => some (.sign .mul token.span)
  | .openParen => some (.opening token.span.start)
  | .closeParen => some (.closing token.span.stop)
  | .whitespace | .symbol => none

def Literal.parts : Literal → List Part
  | number value span => [.number value span]
  | symbol name span => [.name name span]

def Connective.parts (connective : Connective) : List Part :=
  [.sign connective.operator connective.span]

/-- The literals, operators and parentheses of a tree in the order of the text. -/
def Tree.parts : Tree → List Part
  | literal value => value.parts
  | paren inner span => .opening span.start :: inner.parts ++ [.closing span.stop]
  | binary lhs connective rhs _ => lhs.parts ++ connective.parts ++ rhs.parts

theorem Token.part?_numeral {token : Token} (h : token.kind.isNumeral = true) :
    token.part? = some (.number token.value token.span) := by
  unfold part?
  revert h
  cases token.kind <;> simp [Kind.isNumeral]

theorem Token.part?_sign {token : Token} {op : Operator} (h : token.kind = op.kind) :
    token.part? = some (.sign op token.span) := by
  unfold part?
  rw [h]
  cases op <;> rfl

/-- A phrase is spelled by the parts of its tree. -/
theorem Phrase.Derives.map_part? {phrase : Phrase} {tokens : List Token} {tree : Tree}
    (h : phrase.Derives tokens tree) : tokens.map Token.part? = tree.parts.map some := by
  induction h using growing with
  | numeral kind => simp [Token.part?_numeral kind, Tree.parts, Literal.parts]
  | name kind => simp [Token.part?, kind, Tree.parts, Literal.parts]
  | group opens closes inside ih =>
    simp [Token.part?, opens, closes, ih, Tree.parts, Span.through]
  | single _ ih => exact ih
  | snoc _ kind _ ihLeft ihRight =>
    simp [Token.part?_sign kind, ihLeft, ihRight, Tree.join, Tree.parts, Connective.parts]

/-! ## Exact readers -/

/-- The second cursor is the first one moved over some tokens and then over one more, which is not
white space. -/
structure Cursor.Consumes (c : Cursor) (between : List Token) (last : Token) (d : Cursor) : Prop where
  ahead : c.ahead = between ++ last :: d.ahead
  passed : d.passed = last :: between.reverse ++ c.passed
  dark : last.isWhitespace = false

/-- A cursor that has moved on stands right behind the last token read. -/
theorem Cursor.Passes.consumes {c d : Cursor} {read : List Token} (h : c.Passes read d)
    (advanced : d.remaining < c.remaining) (nonempty : read ≠ []) :
    ∃ between last, c.Consumes between last d ∧ Token.visible (between ++ [last]) = read := by
  obtain ⟨moved, passed, ahead⟩ : ∃ moved, d.passed.reverse = c.passed.reverse ++ moved ∧
      c.ahead = moved ++ d.ahead := by
    rcases List.append_eq_append_iff.mp h.tokens with ⟨back, passed, ahead⟩ | split
    · -- Moving back would leave more tokens ahead.
      have lengths := congrArg List.length ahead
      simp only [remaining, List.length_append] at advanced lengths
      omega
    · exact split
  have inside : Token.visible moved = read := by
    have past := h.past
    rw [Cursor.past, passed, Token.visible_append] at past
    exact List.append_cancel_left past
  obtain rfl | ⟨between, last, rfl⟩ := List.eq_nil_or_concat moved
  · exact absurd inside.symm nonempty
  rw [List.concat_eq_append] at passed ahead inside
  have passed : d.passed = last :: between.reverse ++ c.passed := by
    simpa using congrArg List.reverse passed
  have landed : last ∈ read := by
    have lands := h.lands
    rw [passed, List.getLast?_eq_some_getLast nonempty] at lands
    have same : last = read.getLast nonempty := by simpa using lands
    rw [same]
    exact List.getLast_mem nonempty
  refine ⟨between, last, ⟨by simpa using ahead, passed, ?_⟩, inside⟩
  rw [← inside] at landed
  simpa using (List.mem_filter.mp landed).2

/-- A read gives up, and has not moved once it is restored, or it gives a value that was made from
exactly the tokens that it has moved over. -/
def Outcome.Exact {start : Cursor} {α : Type} (made : α → List Token → Prop)
    (outcome : Outcome start α) : Prop :=
  match outcome.restore with
  | .failure _ stop => stop = start
  | .success value stop _ =>
    stop.tokens = start.tokens ∧ ∃ between last, start.Consumes between last stop ∧
      made value (Token.visible (between ++ [last]))

namespace Outcome.Exact

variable {start : Cursor} {α β : Type} {made : α → List Token → Prop}

theorem failure (error : SyntaxError) (stop : Cursor) :
    (failure error stop : Outcome start α).Exact made := rfl

theorem success {value : α} {stop : Cursor} {advanced : stop.remaining < start.remaining}
    {read : List Token} (passes : start.Passes read stop) (nonempty : read ≠ [])
    (makes : made value read) : (success value stop advanced).Exact made := by
  obtain ⟨between, last, consumes, rfl⟩ := passes.consumes advanced nonempty
  exact ⟨passes.tokens, between, last, consumes, makes⟩

theorem restore {outcome : Outcome start α} (h : outcome.Exact made) :
    outcome.restore.Exact made := by
  cases outcome with
  | failure error stop => exact failure error start
  | success value stop advanced => exact h

theorem map {outcome : Outcome start α} {f : α → β} {made' : β → List Token → Prop}
    (h : outcome.Exact made) (makes : ∀ value read, made value read → made' (f value) read) :
    (outcome.map f).Exact made' := by
  cases outcome with
  | failure error stop => exact failure error stop
  | success value stop advanced =>
    obtain ⟨tokens, between, last, consumes, here⟩ := h
    exact ⟨tokens, between, last, consumes, makes _ _ here⟩

end Outcome.Exact

/-- The tokens are the parts of a value, one by one. -/
def MadeOf {α : Type} (parts : α → List Part) (value : α) (read : List Token) : Prop :=
  read.map Token.part? = (parts value).map some

/-- A reader whose successes read a phrase is exact. -/
theorem Outcome.Meets.exact {phrase : Phrase} {c : Cursor} {outcome : Outcome c Tree}
    {good : Tree → Cursor → Prop} {bad : SyntaxError → Prop} (h : outcome.Meets good bad)
    (reads : ∀ tree stop, good tree stop → ∃ read, phrase.Read c tree stop read) :
    outcome.Exact (MadeOf Tree.parts) := by
  cases outcome with
  | failure error stop => exact .failure error stop
  | success tree stop advanced =>
    obtain ⟨read, whole⟩ := reads tree stop h
    exact .success whole.passes whole.derives.ne_nil whole.derives.map_part?

namespace Parser

theorem exact_token (kind : Token.Kind) (c : Cursor) :
    (token kind c).Exact fun token read => token.kind = kind ∧ read = [token] := by
  cases h : token kind c with
  | failure error stop => exact .failure error stop
  | success found stop advanced =>
    obtain ⟨same, passes⟩ := passes_of_token h
    exact .success passes (by simp) ⟨same, rfl⟩

theorem exact_connective (c : Cursor) : (connective c).Exact (MadeOf Connective.parts) := by
  cases h : connective c with
  | failure error stop => exact .failure error stop
  | success sign stop advanced =>
    obtain ⟨token, kind, span, passes⟩ := passes_of_connective h
    refine .success passes (by simp) ?_
    simp [MadeOf, Connective.parts, Token.part?_sign (operator?_eq_some.mp kind), span]

theorem exact_number (c : Cursor) : (number c).Exact (MadeOf Literal.parts) := by
  have numeral {kind : Token.Kind} {token : Token} {stop : Cursor}
      {advanced : stop.remaining < c.remaining} (isNumeral : kind.isNumeral = true)
      (reads : Parser.token kind c = .success token stop advanced) :
      (number c).Exact (MadeOf Literal.parts) := by
    obtain ⟨rfl, passes⟩ := passes_of_token reads
    obtain ⟨stop, _, passes, decides⟩ := number_of_numeral passes.future isNumeral
    by_cases finite : token.value.isFinite = true
    · rw [decides, if_pos finite]
      refine .success passes (by simp) ?_
      simp [MadeOf, Literal.parts, Token.part?_numeral isNumeral]
    · rw [decides, if_neg finite]
      exact .failure _ _
  cases whole : token .int c with
  | success token stop advanced => exact numeral rfl whole
  | failure error stop =>
    cases point : token .float c with
    | success token stop advanced => exact numeral rfl point
    | failure error stop =>
      simp only [number, whole, point, Outcome.restore_failure]
      exact .failure _ _

theorem exact_symbol (c : Cursor) : (symbol c).Exact (MadeOf Literal.parts) := by
  refine (exact_token .name c).restore.map ?_
  rintro token _ ⟨name, rfl⟩
  simp [MadeOf, Literal.parts, Token.part?, name]

theorem exact_literal (c : Cursor) : (literal c).Exact (MadeOf Literal.parts) := by
  unfold literal
  split
  · exact (exact_symbol c).restore
  · exact (exact_number c).restore

theorem exact_primary (c : Cursor) : (primary c).Exact (MadeOf Tree.parts) :=
  (primary_meets c).exact fun _ _ reads => reads

theorem exact_expression (c : Cursor) : (expression c).Exact (MadeOf Tree.parts) :=
  (expression_meets c).exact fun _ _ ⟨read, reads, _⟩ => ⟨read, reads⟩

theorem exact_paren (c : Cursor) : (paren c).Exact (MadeOf Tree.parts) := by
  cases enter : token .openParen c with
  | failure error stop =>
    rw [paren, enter]
    exact .failure _ _
  | success opening inside entered =>
    obtain ⟨opens, passes⟩ := passes_of_token enter
    exact (paren_meets c passes.future opens).exact fun _ _ reads => reads

/-- From any place between any tokens, also inside an expression or between two blanks, every reader
is exact: it takes the tokens that its value is made of and no others, or it takes none. -/
theorem attempts_exact (c : Cursor) :
    (expression c).Exact (MadeOf Tree.parts) ∧
      (primary c).Exact (MadeOf Tree.parts) ∧
      (paren c).Exact (MadeOf Tree.parts) ∧
      (literal c).Exact (MadeOf Literal.parts) ∧
      (number c).Exact (MadeOf Literal.parts) ∧
      (symbol c).Exact (MadeOf Literal.parts) ∧
      (connective c).Exact (MadeOf Connective.parts) ∧
      ∀ kind, (token kind c).Exact fun token read => token.kind = kind ∧ read = [token] :=
  ⟨exact_expression c, exact_primary c, exact_paren c, exact_literal c, exact_number c,
    exact_symbol c, exact_connective c, fun kind => exact_token kind c⟩

end Parser

end SymbolicCalculus
