import Mathlib.Data.List.Induction
import SymbolicCalculus.Proofs.Syntax.Nodes

/-!
Where a text is wrong. Each place of an error covers tokens that are next to one another, unless it
is the end of the text.
-/

set_option autoImplicit false

namespace SymbolicCalculus

namespace Nest

/-- Nothing is lost: the parts make up the tokens, the outermost first. -/
theorem flatten_of (tokens : List Token) :
    (of tokens).outer.reverse.flatten ++ (of tokens).inner = tokens := by
  have step (nest : Nest) (token : Token) :
      (nest.push token).outer.reverse.flatten ++ (nest.push token).inner =
        nest.outer.reverse.flatten ++ nest.inner ++ [token] := by
    unfold push
    split
    · simp
    · rename_i inside
      simp [inside]
    · simp
  induction tokens using List.reverseRecOn with
  | nil => rfl
  | append_singleton front last ih => rw [of_snoc, step, ih]

theorem inner_suffix (tokens : List Token) : (of tokens).inner <:+ tokens :=
  ⟨_, flatten_of tokens⟩

/-- Each outer part holds at least the parenthesis that it ends with. -/
theorem outer_ne_nil (tokens : List Token) : ∀ part ∈ (of tokens).outer, part ≠ [] := by
  induction tokens using List.reverseRecOn with
  | nil => simp [of, empty]
  | append_singleton front last ih =>
    rw [of_snoc]
    unfold push
    split
    · simpa using ih
    · rename_i inside
      exact fun part member => ih part (by simp [inside, member])
    · exact ih

theorem exists_opening {tokens : List Token} (inside : 0 < (of tokens).depth) :
    ∃ opening, (of tokens).opening? = some opening := by
  unfold depth at inside
  unfold opening?
  have filled := outer_ne_nil tokens
  cases outer : (of tokens).outer with
  | nil => simp [outer] at inside
  | cons part outer' =>
    exact ⟨part.getLast (filled part (by simp [outer])), List.getLast?_eq_some_getLast _⟩

theorem mem_of_opening? {tokens : List Token} {opening : Token}
    (h : (of tokens).opening? = some opening) : opening ∈ tokens := by
  unfold opening? at h
  obtain ⟨part, first, last⟩ := Option.bind_eq_some_iff.mp h
  rw [← flatten_of tokens]
  refine List.mem_append_left _ (List.mem_flatten.mpr ⟨part, ?_, List.mem_of_getLast? last⟩)
  exact List.mem_reverse.mpr (List.mem_of_head? first)

end Nest

/-- The span covers tokens that stand next to one another. -/
def Covers (tokens : List Token) (span : Span) : Prop :=
  ∃ before part behind, tokens = before ++ (part ++ behind) ∧ part ≠ [] ∧ span = cover part

theorem covers_of_mem {tokens : List Token} {token : Token} (h : token ∈ tokens) :
    Covers tokens token.span := by
  obtain ⟨before, behind, rfl⟩ := List.append_of_mem h
  exact ⟨before, [token], behind, rfl, by simp, rfl⟩

theorem Covers.append {tokens : List Token} {span : Span} (h : Covers tokens span)
    (more : List Token) : Covers (tokens ++ more) span := by
  obtain ⟨before, part, behind, rfl, filled, same⟩ := h
  exact ⟨before, part, behind ++ more, by simp, filled, same⟩

/-- What is behind the innermost open parenthesis is not empty once an operand has ended. -/
theorem covers_inner {tokens : List Token} (ended : expectsOperand tokens = false) :
    Covers tokens (cover (Nest.of tokens).inner) := by
  obtain ⟨outside, whole⟩ := Nest.inner_suffix tokens
  exact ⟨outside, (Nest.of tokens).inner, [], by simp [whole], Nest.inner_ne_nil ended, rfl⟩

theorem covers_of_mem_diagnose {finish span : Span} {front : List Token} {next : Option Token}
    (within : next = none → expectsOperand front = false)
    (member : span ∈ (diagnose finish front next).spans) : Covers (front ++ next.toList) span := by
  cases next with
  | none =>
    have ended := within rfl
    simp only [diagnose, ended] at member
    obtain ⟨opening, found, rfl⟩ := List.mem_map.mp member
    exact covers_of_mem (List.mem_append_left _ (Nest.mem_of_opening? (Option.mem_toList.mp found)))
  | some next =>
    have last : Covers (front ++ [next]) next.span := covers_of_mem (by simp)
    have refused := refusedAt_diagnose finish front next
    rw [Option.toList_some]
    generalize diagnose finish front (some next) = error at *
    cases refused with
    | @emptyPair init opening pair =>
      -- An empty pair of parentheses is marked from its first to its second token.
      obtain rfl := List.mem_singleton.mp member
      exact ⟨init, [opening, next], [], by simp [pair], by simp, rfl⟩
    | missing ended =>
      rcases List.mem_cons.mp member with rfl | member
      · exact (covers_inner ended).append [next]
      · obtain rfl := List.mem_singleton.mp member
        exact last
    | overflow | stray | unexpected =>
      obtain rfl := List.mem_singleton.mp member
      exact last

theorem RefusedAt.spans_ne_nil {tokens : List Token} {next : Token} {error : SyntaxError}
    (h : RefusedAt tokens next error) : error.spans ≠ [] := by
  cases h <;> exact List.cons_ne_nil _ _

/-- At the end of the tokens, what is due is missed there, and what is open where it was opened. -/
theorem diagnose_end (finish : Span) {front : List Token} (blocks : Blocks front none) :
    diagnose finish front none = ⟨[finish], .unexpectedEnd⟩ ∨
      ∃ opening ∈ front,
        diagnose finish front none = ⟨[opening.span], .unclosedParenthesis true⟩ := by
  cases due : expectsOperand front with
  | true => exact .inl (diagnose_end_due due)
  | false =>
    have inside : 0 < (Nest.of front).depth := by simpa [Blocks, due] using blocks
    obtain ⟨opening, found⟩ := Nest.exists_opening inside
    exact .inr ⟨opening, Nest.mem_of_opening? found, diagnose_end_open due found⟩

/-- What is refused is refused at some place. -/
theorem spans_diagnose_ne_nil (finish : Span) {front : List Token} {next : Option Token}
    (blocks : Blocks front next) : (diagnose finish front next).spans ≠ [] := by
  cases next with
  | none => rcases diagnose_end finish blocks with same | ⟨_, _, same⟩ <;> simp [same]
  | some next => exact (refusedAt_diagnose finish front next).spans_ne_nil

theorem Span.slice?_point (text : String) :
    (Span.point text.utf8ByteSize).slice? text = some "" := by
  refine slice?_eq_some.mpr ⟨text.toList, [], by simp, ?_⟩
  rw [utf8Length_toList]
  rfl

/-- Each place of an error covers tokens, but the end of a text that should go on does not. -/
theorem Tree.covers_of_parse_error {text : String} {error : SyntaxError}
    (h : parse text = .error error) :
    error.fault = .unexpectedEnd ∧ error.spans = [.point text.utf8ByteSize] ∨
      error.fault ≠ .unexpectedEnd ∧ ∀ span ∈ error.spans, Covers (Token.ofText text) span := by
  obtain ⟨front, rest, split, _, blocks, rfl⟩ := exists_diagnosis h
  rw [Ne, fault_diagnose_eq_unexpectedEnd]
  by_cases ended : rest.head? = none ∧ expectsOperand front = true
  · refine .inl ⟨ended, ?_⟩
    rw [ended.1, diagnose_end_due ended.2]
  · refine .inr ⟨ended, fun span member => ?_⟩
    have within : rest.head? = none → expectsOperand front = false := by simpa using ended
    have whole : front ++ rest.head?.toList ++ rest.tail = Token.ofText text := by
      rw [split]
      cases rest <;> simp
    have covers := (covers_of_mem_diagnose within member).append rest.tail
    rwa [whole] at covers

/-- Each error has a place, and marks a part of the text there. -/
theorem Tree.places_of_parse_error {text : String} {error : SyntaxError}
    (h : parse text = .error error) :
    error.spans ≠ [] ∧ ∀ span ∈ error.spans, ∃ slice, span.slice? text = some slice := by
  constructor
  · obtain ⟨front, rest, _, _, blocks, rfl⟩ := exists_diagnosis h
    exact spans_diagnose_ne_nil _ blocks
  · rcases covers_of_parse_error h with ⟨_, ended⟩ | ⟨_, covers⟩
    · simpa [ended] using ⟨_, Span.slice?_point text⟩
    · intro span member
      obtain ⟨before, part, behind, split, filled, rfl⟩ := covers span member
      obtain ⟨slice, marks, _⟩ := Token.exists_slice split filled
      exact ⟨slice, marks⟩

/-! ## The same tokens of two texts -/

/-- The span starts with the token of one index and stops with that of another. -/
def Marks (tokens : List Token) (i j : Nat) (span : Span) : Prop :=
  ∃ first last, tokens[i]? = some first ∧ tokens[j]? = some last ∧ span = first.span.through last.span

theorem Covers.exists_marks {tokens : List Token} {span : Span} (h : Covers tokens span) :
    ∃ i j, i ≤ j ∧ Marks tokens i j span := by
  obtain ⟨before, part, behind, rfl, filled, rfl⟩ := h
  obtain ⟨first, rest, rfl⟩ := List.exists_cons_of_ne_nil filled
  refine ⟨before.length, before.length + rest.length, Nat.le_add_right _ _,
    first, (first :: rest).getLast filled, by simp, ?_, ?_⟩
  · rw [List.getElem?_append_right (Nat.le_add_right _ _), Nat.add_sub_cancel_left,
      List.getElem?_append_left (by simp), List.getLast_eq_getElem]
    simp
  · simp [cover, List.getLast?_eq_some_getLast filled]

theorem Marks.relocate {tokens : List Token} {i j : Nat} {span : Span} (h : Marks tokens i j span)
    (r : Relocation) : Marks (tokens.map (Token.relocate r)) i j (span.relocate r) := by
  obtain ⟨first, last, starts, stops, rfl⟩ := h
  exact ⟨first.relocate r, last.relocate r, by simp [starts], by simp [stops], rfl⟩

end SymbolicCalculus
