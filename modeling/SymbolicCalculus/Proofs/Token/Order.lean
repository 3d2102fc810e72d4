import Mathlib.Data.List.Nodup
import SymbolicCalculus.Proofs.Token.Relocation

/-!
The order of scanned tokens. They follow one another and none is empty, so their places tell them
apart, and the same tokens in another layout have only been moved.
-/

set_option autoImplicit false

namespace SymbolicCalculus

namespace Token

/-- What a token is, wherever it stands. -/
def content (token : Token) : Kind × String := (token.kind, token.lexeme)

/-- Moved to one place, tokens differ in nothing but their contents. -/
theorem map_relocate_origin {tokens tokens' : List Token}
    (same : tokens.map content = tokens'.map content) :
    tokens.map (relocate .origin) = tokens'.map (relocate .origin) := by
  have moved : relocate .origin = (fun part => ⟨part.1, .point 0, part.2⟩) ∘ content := rfl
  rw [moved, ← List.map_map, same, List.map_map]

/-- Scanned tokens are not empty, and lie inside the text. -/
theorem bounds_of_mem_scanFrom {position : Nat} {text : List Char} :
    ∀ token ∈ scanFrom position [] text, position ≤ token.span.start ∧
      token.span.start < token.span.stop ∧ token.span.stop ≤ position + utf8Length text := by
  match text with
  | [] => simp [scanFrom]
  | c :: rest =>
    have stop := stop_front_add position c rest
    have behind := @bounds_of_mem_scanFrom (front position c rest).span.stop
      (rest.drop (extent c rest).2)
    have filled : position < (front position c rest).span.stop := by
      have := c.utf8Size_pos
      simp only [front, utf8Length_cons]
      omega
    rw [scanFrom_cons]
    refine List.forall_mem_cons.mpr ⟨⟨Nat.le_refl _, filled, by omega⟩, ?_⟩
    intro token member
    have := behind token member
    omega
termination_by text.length
decreasing_by simp only [List.length_drop, List.length_cons]; omega

/-- Scanned tokens follow one another. -/
theorem pairwise_scanFrom {position : Nat} {text : List Char} :
    (scanFrom position [] text).Pairwise fun first second =>
      first.span.stop ≤ second.span.start := by
  match text with
  | [] => simp [scanFrom]
  | c :: rest =>
    have behind := @pairwise_scanFrom (front position c rest).span.stop
      (rest.drop (extent c rest).2)
    rw [scanFrom_cons]
    exact .cons (fun token member => (bounds_of_mem_scanFrom token member).1) behind
termination_by text.length
decreasing_by simp only [List.length_drop, List.length_cons]; omega

theorem pairwise_ofText (text : String) :
    (ofText text).Pairwise fun first second => first.span.stop ≤ second.span.start :=
  pairwise_scanFrom.filter _

/-- There is no token behind one that reaches to the end of the text. -/
theorem eq_nil_of_stop {text : String} {front more : List Token} {token : Token}
    (split : ofText text = front ++ token :: more) (stop : token.span.stop = text.utf8ByteSize) :
    more = [] := by
  cases more with
  | nil => rfl
  | cons other more =>
    have ordered := pairwise_ofText text
    rw [split] at ordered
    have behind := List.rel_of_pairwise_cons (List.pairwise_append.mp ordered).2.1
      (List.mem_cons_self (a := other))
    have member : other ∈ ofText text := by simp [split]
    have bounds := bounds_of_mem_scanFrom other (List.mem_of_mem_filter member)
    rw [utf8Length_toList] at bounds
    omega

/-- No two tokens of a text start or stop at the same place. -/
theorem nodup_places (text : String) :
    ((ofText text).map (·.span.start)).Nodup ∧ ((ofText text).map (·.span.stop)).Nodup := by
  have ordered : (ofText text).Pairwise fun first second =>
      first.span.start < second.span.start ∧ first.span.stop < second.span.stop := by
    refine List.Pairwise.filter _ (pairwise_scanFrom.imp_of_mem ?_)
    intro first second member member' apart
    have := bounds_of_mem_scanFrom first member
    have := bounds_of_mem_scanFrom second member'
    omega
  constructor
  · exact List.pairwise_map.mpr (ordered.imp fun lower => Nat.ne_of_lt lower.1)
  · exact List.pairwise_map.mpr (ordered.imp fun lower => Nat.ne_of_lt lower.2)

/-- Different keys can be given any values. -/
theorem exists_map_eq {keys values : List Nat} (different : keys.Nodup)
    (length : keys.length = values.length) : ∃ f : Nat → Nat, keys.map f = values := by
  refine ⟨fun key => values.getD (keys.idxOf key) 0, List.ext_getElem (by simpa using length) ?_⟩
  intro i inside inside'
  simp [different.idxOf_getElem, inside']

theorem exists_relocation {text text' : String}
    (same : (ofText text).map content = (ofText text').map content) :
    ∃ r, ofText text' = (ofText text).map (relocate r) := by
  have length : (ofText text).length = (ofText text').length := by
    simpa using congrArg List.length same
  obtain ⟨starts, stops⟩ := nodup_places text
  obtain ⟨start, started⟩ := @exists_map_eq _ ((ofText text').map (·.span.start)) starts
    (by simpa using length)
  obtain ⟨stop, stopped⟩ := @exists_map_eq _ ((ofText text').map (·.span.stop)) stops
    (by simpa using length)
  refine ⟨⟨start, stop⟩, List.ext_getElem (by simpa using length.symm) ?_⟩
  intro i inside' _
  have inside : i < (ofText text).length := Nat.lt_of_lt_of_eq inside' length.symm
  -- Token by token, the four parts are known to agree.
  have contents := congrArg (·[i]?) same
  have first := congrArg (·[i]?) started
  have last := congrArg (·[i]?) stopped
  simp only [List.getElem?_map, List.getElem?_eq_getElem inside, List.getElem?_eq_getElem inside',
    Option.map_some, Option.some.injEq, content, Prod.mk.injEq] at contents first last
  simp only [List.getElem_map, relocate, Span.relocate, first, last, contents]

end Token

end SymbolicCalculus
