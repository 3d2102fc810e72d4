import SymbolicCalculus.Proofs.Syntax.Recognition

/-!
Every sentence is read, and as the tree that it spells. So the reader of whole texts accepts exactly
the sentences, and no sentence spells two trees.
-/

set_option autoImplicit false

namespace SymbolicCalculus

/-- A phrase starts as an operand does. -/
theorem Phrase.Derives.exists_first {phrase : Phrase} {tokens : List Token} {tree : Tree}
    (h : phrase.Derives tokens tree) :
    ∃ first rest, tokens = first :: rest ∧ first.kind.startsPrimary = true := by
  induction h using growing with
  | @numeral token kind =>
    refine ⟨token, [], rfl, ?_⟩
    revert kind
    cases token.kind <;> simp [Token.Kind.isNumeral, Token.Kind.startsPrimary]
  | @name token kind => exact ⟨token, [], rfl, by simp [kind, Token.Kind.startsPrimary]⟩
  | @group opening closing tokens inner opens =>
    exact ⟨opening, tokens ++ [closing], rfl, by simp [opens, Token.Kind.startsPrimary]⟩
  | single _ ih => exact ih
  | @snoc op tokens more sign tree rhs _ _ _ ihLeft =>
    obtain ⟨first, rest, rfl, starts⟩ := ihLeft
    exact ⟨first, rest ++ sign :: more, rfl, starts⟩

namespace Parser

/-- Wherever the tokens come next, they are read as the phrase. A chain is read by a climb from its
first operand, and one of sums must not go on with a product. -/
def Completes : Phrase → List Token → Tree → Prop
  | .primary, tokens, tree =>
    ∀ c rest, c.future = tokens ++ rest →
      ∃ d advanced, c.Passes tokens d ∧ primary c = .success tree d advanced
  | .chain op, tokens, tree =>
    ∀ c rest, c.future = tokens ++ rest → (op = .add → rest.head?.bind operator? ≠ some .mul) →
      ∃ operand stop further d, primary c = .success operand stop further ∧
        c.Passes tokens d ∧
        ∀ start advanced least, least ≤ op.precedence → ∃ advanced',
          climb start operand stop advanced least = climb start tree d advanced' least

variable {c : Cursor} {tokens rest : List Token} {tree : Tree}

/-- An expression is read in full if nothing behind it could belong to it. -/
theorem expression_of_completes (completes : Completes .expression tokens tree)
    (ahead : c.future = tokens ++ rest)
    (foreign : ∀ next ∈ rest.head?, next.kind = .closeParen ∨ next.kind = .symbol) :
    ∃ d advanced, c.Passes tokens d ∧ expression c = .success tree d advanced := by
  have loose : rest.head?.bind operator? = none := by
    cases behind : rest.head? with
    | none => rfl
    | some next => rcases foreign next behind with kind | kind <;> simp [operator?, kind]
  obtain ⟨operand, stop, further, d, reads, passes, climbs⟩ :=
    completes c rest ahead (by simp [loose])
  obtain ⟨advanced, same⟩ := climbs c further .any (by decide)
  have future : d.future = rest := passes.future_eq ahead
  have ends : climb c tree d advanced .any = .success tree d advanced := by
    apply climb_of_none
    rw [nextOperator?_eq, future, loose]
    simp
  refine ⟨d, advanced, passes, ?_⟩
  rw [expression_of_success ((chain_eq .any reads).trans (same.trans ends)), future]
  cases behind : rest.head? with
  | none => rfl
  | some next =>
    rcases foreign next behind with kind | kind <;> simp [kind, Token.Kind.startsPrimary]

theorem completes {phrase : Phrase} (h : phrase.Derives tokens tree) (fits : ∀ token ∈ tokens, token.Fits) :
    Completes phrase tokens tree := by
  induction h using Phrase.Derives.growing with
  | @numeral token kind =>
    intro c rest ahead
    exact primary_of_numeral ahead kind (fits token (by simp))
  | @name token kind =>
    intro c rest ahead
    exact primary_of_name ahead kind
  | @group opening closing tokens inner opens closes inside ih =>
    intro c rest ahead
    -- The closing parenthesis is foreign to the body, which is therefore read in full.
    have ahead' : c.future = opening :: (tokens ++ closing :: rest) := by simpa using ahead
    obtain ⟨entry, entered, enter, enters⟩ := token_of_kind ahead' opens
    have body : entry.future = tokens ++ closing :: rest := enters.future_eq ahead'
    have occupied : Occupied entry := by
      obtain ⟨first, more, rfl, starts⟩ := inside.exists_first
      intro next member closes
      have same : first = next := by simpa [body] using member
      simp [same, closes, Token.Kind.startsPrimary] at starts
    obtain ⟨behind, passed, passes, reads⟩ :=
      expression_of_completes (ih fun token member => fits token (by simp [member])) body
        (by simp [closes])
    obtain ⟨d, advanced, leaves, read⟩ :=
      paren_of_closed enter occupied reads (passes.future_eq body) closes
    refine ⟨d, advanced, (enters.trans passes).trans leaves, ?_⟩
    rw [primary_of_opening ahead' opens, read, Outcome.restore_success]
  | @single op tokens tree derives ih =>
    cases op with
    | mul =>
      intro c rest ahead _
      obtain ⟨d, advanced, passes, read⟩ := ih fits c rest ahead
      exact ⟨tree, d, advanced, d, read, passes, fun _ advanced _ _ => ⟨advanced, rfl⟩⟩
    | add =>
      intro c rest ahead _
      obtain ⟨operand, stop, further, d, read, passes, climbs⟩ := ih fits c rest ahead (by simp)
      refine ⟨operand, stop, further, d, read, passes, fun start advanced least loose => ?_⟩
      -- What takes sums takes products as well, so the climb over the term goes on.
      exact climbs start advanced least (Nat.le_trans loose (by decide))
  | @snoc op tokens more sign tree rhs left kind right ihLeft ihRight =>
    intro c rest ahead alone
    have ahead' : c.future = tokens ++ (sign :: more ++ rest) := by simpa using ahead
    have isSign : operator? sign = some op := operator?_eq_some.mpr kind
    obtain ⟨operand, stop, further, d, read, passes, climbs⟩ :=
      ihLeft (fun token member => fits token (by simp [member])) c _ ahead'
        (by rintro rfl; simp [isSign])
    have atSign : d.future = sign :: (more ++ rest) := passes.future_eq ahead'
    obtain ⟨behind, passed, signs, signPasses⟩ := connective_of_operator atSign isSign
    have atOperand : behind.future = more ++ rest := signPasses.future_eq atSign
    have fitsMore : ∀ token ∈ more, token.Fits := fun token member => fits token (by simp [member])
    -- Joining the operand brings the climb from `d` to the end of the longer chain.
    have joined : ∃ e further, c.Passes (tokens ++ sign :: more) e ∧
        extend tree d = .success (tree.join ⟨op, sign.span⟩ rhs) e further := by
      cases op with
      | mul =>
        obtain ⟨e, _, arrives, factor⟩ := ihRight fitsMore behind rest atOperand
        exact ⟨e, _, passes.trans (signPasses.trans arrives), extend_mul signs factor⟩
      | add =>
        -- No product follows, or it would belong to the operand.
        obtain ⟨factor, mid, closer, e, reads, arrives, products⟩ :=
          ihRight fitsMore behind rest atOperand (by simp)
        obtain ⟨further, same⟩ := products d (Nat.lt_trans closer passed) .factor (by decide)
        refine ⟨e, further, passes.trans (signPasses.trans arrives), ?_⟩
        have loose : ¬(nextOperator? e).any (.factor ≤ ·.precedence) = true := by
          rw [nextOperator?_eq, arrives.future_eq atOperand, binds_factor_iff]
          exact alone rfl
        rw [extend_add signs reads, same, climb_of_none loose, Outcome.map_success]
    obtain ⟨e, closer, arrives, extending⟩ := joined
    refine ⟨operand, stop, further, e, read, arrives, fun start advanced least loose => ?_⟩
    obtain ⟨advanced, same⟩ := climbs start advanced least loose
    have binds : (nextOperator? d).any (least ≤ ·.precedence) = true := by
      simpa [nextOperator?_eq, atSign, isSign] using loose
    exact ⟨_, same.trans (climb_of_success binds extending)⟩

end Parser

end SymbolicCalculus
