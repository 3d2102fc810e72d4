import Mathlib.Data.List.TakeWhile
import SymbolicCalculus.Proofs.Syntax.Grammar

/-!
Cursors by the tokens on both sides that are not white space. A read passes some of them, and
whether the next one is there decides what it does.
-/

set_option autoImplicit false

namespace SymbolicCalculus

namespace Cursor

/-- What has been read, in the order of the text. -/
def past (c : Cursor) : List Token := Token.visible c.passed.reverse

def future (c : Cursor) : List Token := Token.visible c.ahead

theorem past_append_future (c : Cursor) : c.past ++ c.future = Token.visible c.tokens := by
  simp [past, future, tokens]

@[simp] theorem tokens_start (tokens : List Token) : (start tokens).tokens = tokens := rfl

@[simp] theorem past_start (tokens : List Token) : (start tokens).past = [] := rfl

@[simp] theorem future_start (tokens : List Token) :
    (start tokens).future = Token.visible tokens := rfl

theorem kind_of_mem_future {c : Cursor} {token : Token} (h : token ∈ c.future) :
    token.kind ≠ .whitespace := by
  have visible := (List.mem_filter.mp h).2
  intro blank
  simp [Token.isWhitespace, Token.Kind.isWhitespace, blank] at visible

theorem peek?_eq (c : Cursor) : c.peek? = c.future.head? := by
  simp [peek?, future, Token.visible]

/-- The second cursor is the first one moved over the given tokens of the same text, and over no
white space behind them. -/
structure Passes (c : Cursor) (read : List Token) (d : Cursor) : Prop where
  tokens : d.tokens = c.tokens
  past : d.past = c.past ++ read
  lands : d.passed.head? = read.getLast?.or c.passed.head?

namespace Passes

variable {c d e : Cursor} {read more : List Token}

theorem refl (c : Cursor) : c.Passes [] c := ⟨rfl, (List.append_nil _).symm, rfl⟩

theorem trans (first : c.Passes read d) (second : d.Passes more e) : c.Passes (read ++ more) e where
  tokens := second.tokens.trans first.tokens
  past := by rw [second.past, first.past, List.append_assoc]
  lands := by rw [second.lands, first.lands, List.getLast?_append, Option.or_assoc]

theorem future (h : c.Passes read d) : c.future = read ++ d.future := by
  have same : c.past ++ c.future = c.past ++ (read ++ d.future) := by
    rw [past_append_future, ← List.append_assoc, ← h.past, past_append_future, h.tokens]
  exact List.append_cancel_left same

theorem future_eq {rest : List Token} (h : c.Passes read d) (ahead : c.future = read ++ rest) :
    d.future = rest := by
  rw [h.future] at ahead
  exact List.append_cancel_left ahead

end Passes

theorem endSpan_eq (c : Cursor) :
    c.endSpan = match c.tokens.getLast? with
      | some token => .point token.span.stop
      | none => .point 0 := by
  have last : c.tokens.getLast? = c.ahead.getLast?.or c.passed.head? := by
    simp [tokens, List.getLast?_append]
  rw [last]
  rfl

theorem Passes.endSpan {c d : Cursor} {read : List Token} (h : c.Passes read d) :
    d.endSpan = c.endSpan := by
  rw [endSpan_eq, endSpan_eq, h.tokens]

theorem openParens_eq (c : Cursor) :
    c.openParens = c.past.foldl (fun depth token => token.nesting depth) 0 := by
  -- Readers count over all tokens passed, white space included.
  have neutral (passed : List Token) : passed.foldr Token.nesting 0 =
      (Token.visible passed).foldr Token.nesting 0 := by
    induction passed with
    | nil => rfl
    | cons token passed ih =>
      by_cases blank : token.kind = .whitespace
      · simpa [Token.visible, Token.isWhitespace, Token.Kind.isWhitespace, Token.nesting, blank]
          using ih
      · have visible : token.isWhitespace = false := by
          unfold Token.isWhitespace Token.Kind.isWhitespace
          split
          · contradiction
          · rfl
        simpa [Token.visible, visible] using congrArg token.nesting ih
  rw [openParens, neutral, past, Token.visible_reverse, List.foldl_reverse]

/-- The next token is read, and nothing else that is not white space. -/
theorem next_of_future {c : Cursor} {token : Token} {rest : List Token}
    (h : c.future = token :: rest) :
    ∃ d advanced, c.next = .success token d advanced ∧ c.Passes [token] d := by
  obtain ⟨blanks, behind, split, blank, visible, _⟩ := List.filter_eq_cons_iff.mp h
  have white : ∀ t ∈ blanks, t.isWhitespace = true := by simpa using blank
  have dark : token.isWhitespace = false := by simpa using visible
  -- The white space in front is passed along with the token, and does not show in the past.
  have skip : c.skipWhitespace = ⟨blanks.reverseAux c.passed, token :: behind⟩ := by
    simp [skipWhitespace, split, List.dropWhile_append_of_pos white,
      List.takeWhile_append_of_pos white, dark]
  unfold next
  split
  · rename_i passed token' ahead bound equation _
    rw [skip] at equation
    obtain ⟨rfl, rfl, rfl⟩ : blanks.reverseAux c.passed = passed ∧ token = token' ∧
        behind = ahead := by simpa using equation
    refine ⟨⟨token :: blanks.reverseAux c.passed, behind⟩, bound, rfl, ?_, ?_, rfl⟩
    · simp [tokens, split, List.reverseAux_eq]
    · simpa [past, List.reverseAux_eq, Token.visible, dark] using white
  · rename_i equation _
    simp [skip] at equation

theorem next_of_end {c : Cursor} (h : c.future = []) :
    ∃ d, c.next = .failure ⟨[c.endSpan], .unexpectedEnd⟩ d := by
  have white : ∀ t ∈ c.ahead, t.isWhitespace = true := by
    simpa [future, Token.visible, List.filter_eq_nil_iff] using h
  unfold next
  split
  · rename_i passed token ahead bound equation _
    have behind : c.ahead.dropWhile Token.isWhitespace = token :: ahead :=
      congrArg Cursor.ahead equation
    rw [List.dropWhile_eq_nil_iff.mpr white] at behind
    contradiction
  · exact ⟨_, rfl⟩

end Cursor

end SymbolicCalculus
