import SymbolicCalculus.Proofs.Syntax.Completeness

/-!
Reading to the end of a text. It succeeds exactly on sentences, and gives the one tree that the
sentence spells.
-/

set_option autoImplicit false

namespace SymbolicCalculus

namespace Parser

theorem whole_meets (tokens : List Token) :
    (Cursor.readWhole expression (.start tokens)).Meets
      (fun tree _ => Phrase.expression.Derives (Token.visible tokens) tree ∧
        ∀ token ∈ Token.visible tokens, token.Fits)
      (fun error => Diagnosed (.start tokens) error) := by
  have first := expression_meets (.start tokens)
  unfold Cursor.readWhole
  cases reads : expression (.start tokens) with
  | failure error stop =>
    rw [reads] at first
    exact first ⟨rfl, by simp⟩ rfl
  | success tree stop advanced =>
    rw [reads] at first
    obtain ⟨read, whole, concluded⟩ := first
    have through : Walks [] read := whole.derives.walks whole.fits rfl
    have past : stop.past = read := by simpa using whole.passes.past
    have ended : expectsOperand stop.past = false := by
      rw [past]
      exact whole.derives.not_expectsOperand []
    -- A phrase leaves nothing open, so a parenthesis that comes next closes nothing.
    have outside : (Nest.of stop.past).depth = 0 := by
      rw [past, ← List.nil_append read, whole.derives.nest_append]
      rfl
    simp only [stop.peek?_eq]
    cases ahead : stop.future with
    | nil =>
      have all : Token.visible tokens = read := by simpa [ahead] using whole.passes.future
      rw [List.head?_nil, all]
      exact ⟨whole.derives, whole.fits⟩
    | cons next rest =>
      rw [List.head?_cons]
      by_cases closes : next.kind = .closeParen
      · simp only [closes, if_true]
        refine Diagnosed.after whole.passes through ?_
        exact .atNext ahead (not_admits_stray ended closes outside) (diagnose_closing ended closes).symm
      · have symbol : next.kind = .symbol := (concluded next (by simp [ahead])).resolve_left closes
        simp only [closes, if_false]
        refine Diagnosed.after whole.passes through (.atNext ahead (not_admits_symbol symbol) ?_)
        rw [diagnose_symbol ended symbol, if_pos outside]

/-- Sentences are read to the end. -/
theorem whole_of_derives {tokens : List Token} {tree : Tree}
    (h : Phrase.expression.Derives (Token.visible tokens) tree)
    (fits : ∀ token ∈ Token.visible tokens, token.Fits) :
    (Cursor.readWhole expression (.start tokens)).result = .ok tree := by
  have ahead : (Cursor.start tokens).future = Token.visible tokens ++ [] := by simp
  obtain ⟨stop, advanced, passes, reads⟩ :=
    expression_of_completes (completes h fits) ahead (by simp)
  have nothing : stop.peek? = none := by
    rw [stop.peek?_eq, passes.future_eq ahead]
    rfl
  unfold Cursor.readWhole
  simp only [reads, nothing]
  rfl

end Parser

namespace Tree

theorem parse_eq_ok {text : String} {tree : Tree} :
    parse text = .ok tree ↔
      Phrase.expression.Derives (Token.ofText text) tree ∧
        ∀ token ∈ Token.ofText text, token.Fits := by
  constructor
  · intro h
    have meets := Parser.whole_meets (Token.scan text)
    unfold parse at h
    cases reads : Cursor.readWhole Parser.expression (.start (Token.scan text)) with
    | failure error stop =>
      rw [reads] at h
      contradiction
    | success found stop advanced =>
      rw [reads] at h meets
      cases h
      exact meets
  · rintro ⟨derives, fits⟩
    exact Parser.whole_of_derives derives fits

theorem parse_eq_error {text : String} {error : SyntaxError} (h : parse text = .error error) :
    Diagnosed (.start (Token.scan text)) error := by
  have meets := Parser.whole_meets (Token.scan text)
  unfold parse at h
  cases reads : Cursor.readWhole Parser.expression (.start (Token.scan text)) with
  | failure found stop =>
    rw [reads] at h meets
    cases h
    exact meets
  | success tree stop advanced =>
    rw [reads] at h
    contradiction

end Tree

end SymbolicCalculus
