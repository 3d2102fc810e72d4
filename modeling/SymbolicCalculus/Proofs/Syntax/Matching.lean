import Mathlib.Order.Bounds.Basic
import SymbolicCalculus.Proofs.Syntax.Cursor

/-!
What the count of open parentheses counts behind any tokens, balanced or not: the opening ones that
are left over when each closing one is matched with the nearest that is free. No part of the text
that ends here opens more than that.
-/

set_option autoImplicit false

namespace SymbolicCalculus

namespace Token

/-! ## Matching -/

/-- Where there are opening parentheses among tokens given back to front: the number of tokens in
front of each, in the order of the text. -/
def openings : List Token → List Nat
  | [] => []
  | token :: passed =>
    if token.kind = .openParen then openings passed ++ [passed.length] else openings passed

/-- The opening parentheses that are in none of the pairs. -/
def free (pairs : List (Nat × Nat)) (passed : List Token) : List Nat :=
  (openings passed).filter fun opening => !pairs.any (·.1 == opening)

/-- The pairs of parentheses among tokens given back to front. Each closing one is matched with the
nearest opening one in front of it that is free, and ignored if there is none. -/
def pairs : List Token → List (Nat × Nat)
  | [] => []
  | token :: passed =>
    match token.kind, (free (pairs passed) passed).getLast? with
    | .closeParen, some opening => (opening, passed.length) :: pairs passed
    | _, _ => pairs passed

def unmatched (passed : List Token) : List Nat := free (pairs passed) passed

theorem lt_of_mem_openings {passed : List Token} {opening : Nat} (h : opening ∈ openings passed) :
    opening < passed.length := by
  induction passed with
  | nil => simp [openings] at h
  | cons token passed ih =>
    rw [List.length_cons]
    unfold openings at h
    split at h
    · rcases List.mem_append.mp h with earlier | here
      · exact Nat.lt_succ_of_lt (ih earlier)
      · rw [List.mem_singleton.mp here]
        exact Nat.lt_succ_self _
    · exact Nat.lt_succ_of_lt (ih h)

theorem nodup_openings (passed : List Token) : (openings passed).Nodup := by
  induction passed with
  | nil => exact List.nodup_nil
  | cons token passed ih =>
    unfold openings
    split
    · refine List.nodup_append.mpr ⟨ih, by simp, ?_⟩
      intro opening earlier last here
      rw [List.mem_singleton.mp here]
      exact Nat.ne_of_lt (lt_of_mem_openings earlier)
    · exact ih

theorem mem_openings_of_mem_pairs {passed : List Token} {pair : Nat × Nat}
    (h : pair ∈ pairs passed) : pair.1 ∈ openings passed := by
  have widen (token : Token) (passed : List Token) :
      openings passed ⊆ openings (token :: passed) := by
    rw [openings]
    split
    · exact List.subset_append_left _ _
    · exact List.Subset.refl _
  induction passed with
  | nil => simp [pairs] at h
  | cons token passed ih =>
    apply widen
    unfold pairs at h
    split at h
    · rename_i opening _ last
      rcases List.mem_cons.mp h with rfl | earlier
      · exact (List.mem_filter.mp (List.mem_of_getLast? last)).1
      · exact ih earlier
    · exact ih h

section

variable {token : Token} {passed : List Token}

theorem unmatched_opening (opens : token.kind = .openParen) :
    unmatched (token :: passed) = unmatched passed ++ [passed.length] := by
  have same : pairs (token :: passed) = pairs passed := by simp [pairs, opens]
  have fresh : ¬(pairs passed).any (·.1 == passed.length) = true := by
    intro taken
    obtain ⟨pair, member, here⟩ := List.any_eq_true.mp taken
    have before := lt_of_mem_openings (mem_openings_of_mem_pairs member)
    rw [eq_of_beq here] at before
    exact Nat.lt_irrefl _ before
  rw [unmatched, same, free, openings, if_pos opens, List.filter_append, List.filter_cons_of_pos]
  · rfl
  · exact (Bool.not_eq_true' _).mpr (Bool.eq_false_iff.mpr fresh)

/-- A closing parenthesis takes the last of those that are free. -/
theorem unmatched_closing (closes : token.kind = .closeParen) :
    unmatched (token :: passed) = (unmatched passed).dropLast := by
  have same : openings (token :: passed) = openings passed := by simp [openings, closes]
  cases last : (unmatched passed).getLast? with
  | none =>
    have nothing : unmatched passed = [] := List.getLast?_eq_none_iff.mp last
    have ignored : pairs (token :: passed) = pairs passed := by
      rw [unmatched] at last
      simp [pairs, closes, last]
    have kept : unmatched (token :: passed) = unmatched passed := by
      rw [unmatched, ignored, free, same]
      rfl
    rw [kept, nothing]
    rfl
  | some opening =>
    obtain ⟨earlier, split⟩ := List.getLast?_eq_some_iff.mp last
    have matched : pairs (token :: passed) = (opening, passed.length) :: pairs passed := by
      rw [unmatched] at last
      simp [pairs, closes, last]
    have others : unmatched (token :: passed) = (unmatched passed).filter (· != opening) := by
      rw [unmatched, matched, free, same, unmatched, free, List.filter_filter]
      congr 1
      funext other
      rw [List.any_cons, Bool.not_or, bne, BEq.comm]
    have distinct : (earlier ++ [opening]).Nodup := by
      rw [← split]
      exact (nodup_openings passed).filter _
    have absent : ∀ other ∈ earlier, (other != opening) = true := by
      intro other member
      simpa using (List.nodup_append.mp distinct).2.2 other member opening (by simp)
    rw [others, split, List.filter_append, List.filter_eq_self.mpr absent, List.dropLast_concat]
    simp

theorem unmatched_plain (opens : token.kind ≠ .openParen) (closes : token.kind ≠ .closeParen) :
    unmatched (token :: passed) = unmatched passed := by
  have samePairs : pairs (token :: passed) = pairs passed := by
    rw [pairs]
    split
    · contradiction
    · rfl
  rw [unmatched, samePairs, free, openings, if_neg opens]
  rfl

theorem length_unmatched_cons :
    (unmatched (token :: passed)).length = token.nesting (unmatched passed).length := by
  by_cases opens : token.kind = .openParen
  · simp [unmatched_opening opens, nesting, opens]
  · by_cases closes : token.kind = .closeParen
    · simp [unmatched_closing closes, nesting, closes]
    · rw [unmatched_plain opens closes, nesting.eq_def]
      split <;> first | contradiction | rfl

end

theorem length_unmatched (passed : List Token) :
    (unmatched passed).length = passed.foldr nesting 0 := by
  induction passed with
  | nil => rfl
  | cons token passed ih => rw [length_unmatched_cons, ih, List.foldr_cons]

/-! ## Suffixes -/

/-- How many more parentheses are opened than closed. -/
def balance (tokens : List Token) : Int :=
  tokens.countP (·.kind == .openParen) - tokens.countP (·.kind == .closeParen)

def suffixBalances (tokens : List Token) : Set Int :=
  {d | ∃ suffix, suffix <:+ tokens ∧ balance suffix = d}

theorem balance_append (first second : List Token) :
    balance (first ++ second) = balance first + balance second := by
  simp only [balance, List.countP_append, Int.natCast_add]
  omega

theorem mem_suffixBalances_snoc {tokens : List Token} {last : Token} {d : Int} :
    d ∈ suffixBalances (tokens ++ [last]) ↔
      d = 0 ∨ ∃ before ∈ suffixBalances tokens, d = before + balance [last] := by
  constructor
  · rintro ⟨suffix, ends, rfl⟩
    rcases List.suffix_concat_iff.mp ends with rfl | ⟨shorter, rfl, inside⟩
    · exact .inl rfl
    · exact .inr ⟨_, ⟨shorter, inside, rfl⟩, balance_append shorter [last]⟩
  · rintro (rfl | ⟨_, ⟨shorter, inside, rfl⟩, rfl⟩)
    · exact ⟨[], List.nil_suffix, rfl⟩
    · exact ⟨shorter ++ [last], List.suffix_concat_iff.mpr (.inr ⟨shorter, rfl, inside⟩),
        balance_append shorter [last]⟩

/-- A count that stays at zero starts over behind what closes too much. -/
theorem nesting_eq_max (token : Token) (depth : Nat) :
    (token.nesting depth : Int) = max 0 (depth + balance [token]) := by
  unfold nesting balance
  cases kind : token.kind <;> simp [kind] <;> omega

theorem isGreatest_suffixBalances (passed : List Token) :
    IsGreatest (suffixBalances passed.reverse) (passed.foldr nesting 0 : Nat) := by
  induction passed with
  | nil =>
    refine ⟨⟨[], List.nil_suffix, rfl⟩, ?_⟩
    rintro _ ⟨suffix, ends, rfl⟩
    rw [List.suffix_nil.mp ends]
    exact Int.le_refl 0
  | cons token passed ih =>
    obtain ⟨reached, bound⟩ := ih
    rw [List.reverse_cons, List.foldr_cons, nesting_eq_max]
    constructor
    · rw [mem_suffixBalances_snoc]
      -- The greatest suffix so far goes on, unless it ends up below the empty one.
      rcases Int.le_total (passed.foldr nesting 0 + balance [token]) 0 with below | above
      · exact .inl (Int.max_eq_left below)
      · exact .inr ⟨_, reached, Int.max_eq_right above⟩
    · intro d member
      rcases mem_suffixBalances_snoc.mp member with rfl | ⟨before, inside, rfl⟩
      · exact Int.le_max_left _ _
      · exact Int.le_trans (Int.add_le_add_right (bound inside) _) (Int.le_max_right _ _)

end Token

/-- The number of open parentheses is that of the opening ones left unmatched. It is also the
greatest balance of all suffixes of what has been passed, the empty one included. -/
theorem Cursor.openParens_unmatched (c : Cursor) :
    c.openParens = (Token.unmatched c.passed).length ∧
      IsGreatest {d | ∃ suffix, suffix <:+ c.passed.reverse ∧ Token.balance suffix = d}
        (c.openParens : Int) :=
  ⟨(Token.length_unmatched c.passed).symm, Token.isGreatest_suffixBalances c.passed⟩

/-- Behind `)(()(` two are open, though only one more has been opened than closed. -/
example :
    let c : Cursor := ⟨(Token.scan ")(()(").reverse, []⟩
    c.openParens = 2 ∧ Token.unmatched c.passed = [1, 4] ∧ Token.balance c.passed.reverse = 1 := by
  decide +kernel

end SymbolicCalculus
