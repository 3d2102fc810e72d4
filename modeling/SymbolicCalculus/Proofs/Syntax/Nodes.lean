import SymbolicCalculus.Proofs.Syntax.Relocation
import SymbolicCalculus.Proofs.Text.Slice
import SymbolicCalculus.Proofs.Token.Cut

/-!
The nodes of a tree and the text that each of them covers. It is a sentence of its own, and read on
its own it gives the node back.
-/

set_option autoImplicit false

namespace SymbolicCalculus

/-! ## Tokens next to one another -/

namespace Token

variable {tokens : List Token}

theorem visible_eq_cons {first : Token} {rest : List Token} (h : visible tokens = first :: rest) :
    ∃ blanks behind, tokens = blanks ++ first :: behind ∧ visible blanks = [] ∧
      visible (first :: behind) = first :: rest := by
  obtain ⟨blanks, behind, split, blank, dark, inside⟩ := List.filter_eq_cons_iff.mp h
  exact ⟨blanks, behind, split, List.filter_eq_nil_iff.mpr blank,
    by rw [visible, List.filter_cons, if_pos dark, inside]⟩

theorem visible_eq_concat {front : List Token} {last : Token}
    (h : visible tokens = front ++ [last]) :
    ∃ before blanks, tokens = before ++ [last] ++ blanks ∧
      visible (before ++ [last]) = front ++ [last] := by
  have mirrored : visible tokens.reverse = last :: front.reverse := by simp [h]
  obtain ⟨blanks, behind, split, _, inside⟩ := visible_eq_cons mirrored
  refine ⟨behind.reverse, blanks.reverse, ?_, ?_⟩
  · simpa using congrArg List.reverse split
  · simpa [← visible_reverse] using congrArg List.reverse inside

/-- Visible tokens that are next to one another stand in a part of the tokens that starts with the
first of them and ends with the last. -/
theorem exists_tight {before part behind : List Token}
    (split : visible tokens = before ++ (part ++ behind)) (nonempty : part ≠ []) :
    ∃ front tight back, tokens = front ++ (tight ++ back) ∧ tight ≠ [] ∧ visible tight = part ∧
      cover tight = cover part := by
  obtain ⟨front, rest, rfl, _, split⟩ := List.filter_eq_append_iff.mp split
  obtain ⟨middle, back, rfl, inside, _⟩ := List.filter_eq_append_iff.mp split
  -- White space is dropped behind the last of the tokens, and then in front of the first.
  obtain ⟨lead, last, rfl⟩ := (List.eq_nil_or_concat part).resolve_left nonempty
  rw [List.concat_eq_append] at nonempty inside ⊢
  obtain ⟨middle, blanks, rfl, ended⟩ := visible_eq_concat inside
  obtain ⟨first, more, same⟩ := List.exists_cons_of_ne_nil nonempty
  rw [same] at ended ⊢
  obtain ⟨blanks', tight, split, _, started⟩ := visible_eq_cons ended
  refine ⟨front ++ blanks', first :: tight, blanks ++ back, ?_, by simp, started, ?_⟩
  · rw [split]
    simp
  · have ends : (first :: tight).getLast? = some last := by
      have whole := congrArg List.getLast? split
      simpa using whole.symm
    have ends' : (first :: more).getLast? = some last := by
      rw [← same]
      simp
    simp only [cover, ends, ends', List.head?_cons]

end Token

theorem Token.cover_scanFrom (position : Nat) {text : List Char} (nonempty : text ≠ []) :
    cover (scanFrom position [] text) = ⟨position, position + utf8Length text⟩ := by
  obtain ⟨c, rest, rfl⟩ := List.exists_cons_of_ne_nil nonempty
  have first : (scanFrom position [] (c :: rest)).head? = some (front position c rest) := by
    rw [scanFrom_cons]
    rfl
  unfold cover
  cases last : (scanFrom position [] (c :: rest)).getLast? with
  | none =>
    rw [List.getLast?_eq_none_iff.mp last] at first
    cases first
  | some token =>
    rw [first]
    simp only [Span.through, stop_of_getLast?_scanFrom last]
    rfl

/-- Tokens next to one another are the tokens of the text that they cover, only further on. -/
theorem Token.exists_slice {text : String} {before part behind : List Token}
    (split : ofText text = before ++ (part ++ behind)) (nonempty : part ≠ []) :
    ∃ slice, (cover part).slice? text = some slice ∧ slice ≠ "" ∧
      part = (ofText slice).map (relocate (.forward (cover part).start)) := by
  obtain ⟨front, tight, back, scanned, filled, visible, covers⟩ := exists_tight split nonempty
  obtain ⟨lead, rest, chars, _, scanned⟩ := exists_cut scanned
  obtain ⟨slice, trail, rfl, scanned, _⟩ := exists_cut scanned
  have occupied : slice ≠ [] := by
    rintro rfl
    exact filled (by simpa [scanFrom] using scanned.symm)
  have span : cover part = ⟨utf8Length lead, utf8Length lead + utf8Length slice⟩ := by
    rw [← covers, ← scanned, cover_scanFrom _ occupied, Nat.zero_add]
  refine ⟨String.ofList slice, ?_, ?_, ?_⟩
  · exact Span.slice?_eq_some.mpr ⟨lead, trail, by simpa using chars, by simpa using span⟩
  · simpa using occupied
  · rw [span, ofText, scan, String.toList_ofList, ← visible_map_relocate, ← scanFrom_add, scanned,
      visible]

/-! ## Nodes -/

/-- A tree and all trees in it. -/
def Tree.nodes : Tree → List Tree
  | literal value => [literal value]
  | paren inner span => paren inner span :: inner.nodes
  | binary lhs connective rhs span =>
    binary lhs connective rhs span :: (lhs.nodes ++ rhs.nodes)

namespace Phrase.Derives

variable {phrase : Phrase} {tokens : List Token} {tree node : Tree}

/-- The tokens of a node stand next to one another, and they spell the node. -/
theorem of_mem_nodes (h : phrase.Derives tokens tree) (member : node ∈ tree.nodes) :
    ∃ before part behind, tokens = before ++ (part ++ behind) ∧ expression.Derives part node := by
  have whole {phrase : Phrase} {tokens : List Token} {tree : Tree}
      (h : phrase.Derives tokens tree) :
      ∃ before part behind, tokens = before ++ (part ++ behind) ∧ expression.Derives part tree :=
    ⟨[], tokens, [], by simp, h.toExpression⟩
  induction h using growing with
  | numeral kind =>
    obtain rfl := List.mem_singleton.mp member
    exact whole (.numeral kind)
  | name kind =>
    obtain rfl := List.mem_singleton.mp member
    exact whole (.name kind)
  | @group opening closing tokens inner opens closes inside ih =>
    rcases List.mem_cons.mp member with rfl | member
    · exact whole (.group opens closes inside)
    · obtain ⟨before, part, behind, rfl, derives⟩ := ih member
      exact ⟨opening :: before, part, behind ++ [closing], by simp, derives⟩
  | single _ ih => exact ih member
  | @snoc op tokens more sign tree rhs left kind right ihLeft ihRight =>
    rcases List.mem_cons.mp member with rfl | member
    · exact whole (left.snoc kind right)
    · rcases List.mem_append.mp member with member | member
      · obtain ⟨before, part, behind, rfl, derives⟩ := ihLeft member
        exact ⟨before, part, behind ++ sign :: more, by simp, derives⟩
      · obtain ⟨before, part, behind, rfl, derives⟩ := ihRight member
        exact ⟨tokens ++ sign :: before, part, behind, by simp, derives⟩

theorem visible_eq (h : phrase.Derives tokens tree) (fits : ∀ token ∈ tokens, token.Fits) :
    Token.visible tokens = tokens := by
  have walks : Walks [] tokens := h.walks fits rfl
  simpa [Token.visible] using walks_dark walks

/-- No sentence spells two trees. -/
theorem unique {other : Tree} (h : expression.Derives tokens tree)
    (h' : expression.Derives tokens other) (fits : ∀ token ∈ tokens, token.Fits) :
    tree = other := by
  have dark := h.visible_eq fits
  rw [← dark] at h h' fits
  have same := (Parser.whole_of_derives h fits).symm.trans (Parser.whole_of_derives h' fits)
  exact Except.ok.inj same

/-- What tokens spell further on in a text, they spell at its start with the spans moved back. -/
theorem exists_of_forward {distance : Nat}
    (h : expression.Derives (tokens.map (Token.relocate (.forward distance))) tree)
    (fits : ∀ token ∈ tokens, token.Fits) :
    ∃ part, expression.Derives tokens part ∧ tree = part.relocate (.forward distance) := by
  have back := h.relocate (.back distance)
  rw [Token.map_relocate_forward_back] at back
  refine ⟨tree.relocate (.back distance), back, h.unique (back.relocate _) ?_⟩
  intro token member
  obtain ⟨token', member', rfl⟩ := List.mem_map.mp member
  exact fits token' member'

end Phrase.Derives

namespace Tree

/-- Every node covers a part of the text that is not empty. Read on its own, the part gives the node
back, with all its spans counted from where the node starts. -/
theorem parse_slice {text : String} {tree node : Tree} (read : parse text = .ok tree)
    (member : node ∈ tree.nodes) :
    node.span.start < node.span.stop ∧ node.span.stop ≤ text.utf8ByteSize ∧
      ∃ slice part, node.span.slice? text = some slice ∧ parse slice = .ok part ∧
        node = part.relocate (.forward node.span.start) := by
  obtain ⟨derives, fits⟩ := parse_eq_ok.mp read
  obtain ⟨before, tokens, behind, split, derives⟩ := derives.of_mem_nodes member
  obtain ⟨slice, marks, filled, moved⟩ := Token.exists_slice split derives.ne_nil
  rw [← derives.span_eq] at marks moved
  have fits' : ∀ token ∈ Token.ofText slice, token.Fits := by
    intro token inside
    have whole : token.relocate (.forward node.span.start) ∈ Token.ofText text := by
      rw [split, moved]
      simp only [List.mem_append]
      exact .inr (.inl (List.mem_map_of_mem inside))
    exact fits (token.relocate (.forward node.span.start)) whole
  rw [moved] at derives
  obtain ⟨part, alone, same⟩ := derives.exists_of_forward fits'
  obtain ⟨extent, within⟩ := Span.bounds_of_slice? marks
  rw [utf8Length_toList] at extent within
  have positive : 0 < slice.utf8ByteSize :=
    Nat.pos_of_ne_zero fun empty => filled (String.utf8ByteSize_eq_zero_iff.mp empty)
  exact ⟨by omega, within, slice, part, marks, parse_eq_ok.mpr ⟨alone, fits'⟩, same⟩

theorem parse_slice_sum :
    let text := " (a + b) * c"
    let sum : Tree := .binary (.literal (.symbol "a" ⟨2, 3⟩)) ⟨.add, ⟨4, 5⟩⟩
      (.literal (.symbol "b" ⟨6, 7⟩)) ⟨2, 7⟩
    sum.span.start < sum.span.stop ∧ sum.span.stop ≤ text.utf8ByteSize ∧
      ∃ slice part, sum.span.slice? text = some slice ∧ parse slice = .ok part ∧
        sum = part.relocate (.forward sum.span.start) := by
  intro text sum
  have read : parse text = .ok (.binary (.paren sum ⟨1, 8⟩) ⟨.mul, ⟨9, 10⟩⟩
      (.literal (.symbol "c" ⟨11, 12⟩)) ⟨1, 12⟩) := by decide +kernel
  exact parse_slice read (by decide)

end Tree

end SymbolicCalculus
