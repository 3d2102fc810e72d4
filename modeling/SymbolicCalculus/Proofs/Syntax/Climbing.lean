import SymbolicCalculus.Proofs.Syntax.Operand

/-!
The climb over operators as a plain loop. A product takes its operand as it stands. A sum first
climbs over the products behind its operand. So precedence shows in two equations only.
-/

set_option autoImplicit false

namespace SymbolicCalculus

/-- What came of reading on from a later place, seen from an earlier one. -/
def Outcome.widen {c start : Cursor} {α : Type} (behind : c.remaining < start.remaining) :
    Outcome c α → Outcome start α
  | success value stop advanced => success value stop (Nat.lt_trans advanced behind)
  | failure error stop => failure error stop

namespace Parser

theorem operator?_eq_some {token : Token} {op : Operator} :
    operator? token = some op ↔ token.kind = op.kind := by
  unfold operator?
  cases op <;> cases token.kind <;> simp [Operator.kind]

theorem nextOperator?_eq (c : Cursor) : nextOperator? c = c.future.head?.bind operator? := by
  rw [nextOperator?, c.peek?_eq]

section

variable {start c : Cursor} {lhs : Tree} {advanced : c.remaining < start.remaining}
  {least : Precedence}

theorem climb_of_none (loose : ¬(nextOperator? c).any (least ≤ ·.precedence) = true) :
    climb start lhs c advanced least = .success lhs c advanced := by
  rw [climb, if_neg loose]

theorem climb_of_success (binds : (nextOperator? c).any (least ≤ ·.precedence) = true)
    {longer : Tree} {stop : Cursor} {further : stop.remaining < c.remaining}
    (extending : extend lhs c = .success longer stop further) :
    climb start lhs c advanced least =
      climb start longer stop (Nat.lt_trans further advanced) least := by
  rw [climb, if_pos binds, extending]

theorem climb_of_failure (binds : (nextOperator? c).any (least ≤ ·.precedence) = true)
    {error : SyntaxError} {stop : Cursor} (fails : extend lhs c = .failure error stop) :
    climb start lhs c advanced least = .failure error stop := by
  rw [climb, if_pos binds, fails]

end

/-- A climb ends where no operator binds tightly enough. -/
theorem nextOperator?_of_climb {start c stop : Cursor} {lhs tree : Tree}
    {advanced : c.remaining < start.remaining} {least : Precedence}
    {further : stop.remaining < start.remaining}
    (h : climb start lhs c advanced least = .success tree stop further) :
    ¬(nextOperator? stop).any (least ≤ ·.precedence) = true := by
  by_cases binds : (nextOperator? c).any (least ≤ ·.precedence) = true
  · cases step : extend lhs c with
    | failure error stop =>
      rw [climb_of_failure binds step] at h
      contradiction
    | success longer behind closer =>
      rw [climb_of_success binds step] at h
      exact nextOperator?_of_climb h
  · rw [climb_of_none binds] at h
    cases h
    exact binds
termination_by c.remaining

/-- Where a climb starts from does not matter to what it reads. -/
theorem climb_widen {start c d : Cursor} (lhs : Tree) (advanced : d.remaining < c.remaining)
    (behind : c.remaining < start.remaining) (least : Precedence) :
    climb start lhs d (Nat.lt_trans advanced behind) least =
      (climb c lhs d advanced least).widen behind := by
  by_cases binds : (nextOperator? d).any (least ≤ ·.precedence) = true
  · cases step : extend lhs d with
    | failure error stop =>
      rw [climb_of_failure binds step, climb_of_failure binds step]
      rfl
    | success longer stop further =>
      rw [climb_of_success binds step, climb_of_success binds step]
      exact climb_widen longer (Nat.lt_trans further advanced) behind least
  · rw [climb_of_none binds, climb_of_none binds]
    rfl
termination_by d.remaining

/-! ## The operand behind an operator -/

theorem binds_factor_iff {op : Option Operator} :
    op.any (.factor ≤ ·.precedence) = true ↔ op = some .mul := by
  cases op with
  | none => simp
  | some op => cases op <;> simp +decide

theorem binds_any_iff {op : Option Operator} :
    ¬op.any (.any ≤ ·.precedence) = true ↔ op = none := by
  cases op with
  | none => simp
  | some op => cases op <;> simp +decide

theorem not_tighter_than_add {op : Option Operator} {span : Span}
    (loose : ¬op.any (.factor ≤ ·.precedence) = true) :
    ∀ next ∈ op, ¬(⟨.add, span⟩ : Connective).operator.precedence < next.precedence := by
  rintro next rfl
  change ¬Operator.add.precedence < next.precedence
  revert loose
  cases next <;> simp +decide

theorem complete_of_not_tighter {start c : Cursor} {connective : Connective} {rhs : Tree}
    {advanced : c.remaining < start.remaining}
    (h : ∀ next ∈ nextOperator? c, ¬connective.operator.precedence < next.precedence) :
    complete start connective rhs c advanced = .success rhs c advanced := by
  rw [complete]
  cases next : nextOperator? c with
  | none => rfl
  | some op => simp only [h op next, if_false]

/-- Nothing binds tighter than a product. -/
theorem complete_mul {start c : Cursor} (span : Span) (rhs : Tree)
    (advanced : c.remaining < start.remaining) :
    complete start ⟨.mul, span⟩ rhs c advanced = .success rhs c advanced := by
  apply complete_of_not_tighter
  intro next _
  change ¬Operator.mul.precedence < next.precedence
  cases next <;> decide

/-- The operand of a sum is completed by the products behind it, all in one climb. -/
theorem complete_add {start c : Cursor} (span : Span) (rhs : Tree)
    (advanced : c.remaining < start.remaining) :
    complete start ⟨.add, span⟩ rhs c advanced = climb start rhs c advanced .factor := by
  by_cases binds : (nextOperator? c).any (.factor ≤ ·.precedence) = true
  · have next := binds_factor_iff.mp binds
    have tighter : Operator.add.precedence < Operator.mul.precedence := by decide
    rw [complete]
    cases step : extend rhs c with
    | failure error stop =>
      rw [climb_of_failure binds step]
      simp only [next, tighter, if_true]
    | success longer stop further =>
      rw [climb_of_success binds step, climb_widen longer further advanced]
      simp only [next, Operator.precedence]
      cases rest : climb c longer stop further .factor with
      | failure error last => rfl
      | success completed last furthest =>
        -- The climb has taken every product, so completing again changes nothing.
        exact complete_of_not_tighter (not_tighter_than_add (nextOperator?_of_climb rest))
  · rw [climb_of_none binds]
    exact complete_of_not_tighter (not_tighter_than_add binds)

section

variable {c behind stop : Cursor} {lhs operand : Tree} {span : Span}
  {passed : behind.remaining < c.remaining} {further : stop.remaining < behind.remaining}

theorem extend_of_failure {op : Operator} {error : SyntaxError}
    (sign : connective c = .success ⟨op, span⟩ behind passed)
    (fails : primary behind = .failure error stop) :
    extend lhs c = .failure error behind := by
  rw [extend, sign, Outcome.restore_success]
  simp only [fails, Outcome.restore_failure]

theorem extend_mul (sign : connective c = .success ⟨.mul, span⟩ behind passed)
    (reads : primary behind = .success operand stop further) :
    extend lhs c =
      .success (lhs.join ⟨.mul, span⟩ operand) stop (Nat.lt_trans further passed) := by
  rw [extend, sign, Outcome.restore_success]
  simp only [reads, Outcome.restore_success, complete_mul]

theorem extend_add (sign : connective c = .success ⟨.add, span⟩ behind passed)
    (reads : primary behind = .success operand stop further) :
    extend lhs c = (climb c operand stop (Nat.lt_trans further passed) .factor).map
      (lhs.join ⟨.add, span⟩) := by
  rw [extend, sign, Outcome.restore_success]
  simp only [reads, Outcome.restore_success, complete_add]
  cases climb c operand stop (Nat.lt_trans further passed) .factor <;> rfl

end

/-! ## Expressions -/

section

variable {c stop : Cursor} {operand tree : Tree} {further : stop.remaining < c.remaining}

theorem chain_eq (least : Precedence) (reads : primary c = .success operand stop further) :
    chain least c = climb c operand stop further least := by
  rw [chain, reads, Outcome.restore_success]

theorem chain_of_failure {error : SyntaxError} (least : Precedence)
    (fails : primary c = .failure error stop) : chain least c = .failure error c := by
  rw [chain, fails, Outcome.restore_failure]

theorem expression_of_failure {error : SyntaxError} (fails : chain .any c = .failure error stop) :
    expression c = .failure error stop := by
  rw [expression, fails]

/-- No further operand may follow. -/
theorem expression_of_success (reads : chain .any c = .success tree stop further) :
    expression c =
      match stop.future.head? with
      | none => .success tree stop further
      | some next =>
        if next.kind.startsPrimary then .failure ⟨[tree.span, next.span], .missingOperator⟩ stop
        else .success tree stop further := by
  rw [expression, reads]
  cases ahead : stop.future.head? <;> simp only [stop.peek?_eq, ahead]

end

end Parser

end SymbolicCalculus
