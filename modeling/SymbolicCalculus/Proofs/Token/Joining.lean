import SymbolicCalculus.Proofs.Token.Margins

/-!
Texts put together from others. A single lexeme, a text in parentheses and two texts with an operator
or a space between them have the tokens of their parts, and no token of one part runs into another.
-/

set_option autoImplicit false

namespace SymbolicCalculus

namespace Token

/-! ## Lexemes -/

/-- A text that matches a rule is one token. -/
theorem scanFrom_of_matches {kind : Kind} {lexeme : List Char} (position : Nat)
    (h : kind.Matches lexeme) :
    scanFrom position [] lexeme =
      [⟨kind, ⟨position, position + utf8Length lexeme⟩, String.ofList lexeme⟩] := by
  have alone := @scanFrom_matches _ _ [] position h (by simp)
  simpa [scanFrom] using alone

theorem ofText_of_matches {kind : Kind} {lexeme : String} (h : kind.Matches lexeme.toList)
    (plain : kind.isWhitespace = false) :
    ofText lexeme = [⟨kind, ⟨0, 0 + utf8Length lexeme.toList⟩, lexeme⟩] := by
  unfold ofText scan
  rw [scanFrom_of_matches 0 h, String.ofList_toList]
  exact List.filter_cons_of_pos (by simpa [isWhitespace] using plain)

theorem matches_sign (op : Operator) : op.kind.Matches [op.symbol] := by
  cases op with
  | add => exact .add
  | mul => exact .mul

/-! ## Parentheses -/

theorem exists_ofText_opening (text : String) :
    ∃ opening : Token, opening.kind = .openParen ∧
      ofText ("(" ++ text) = opening :: (ofText text).map (relocate (.forward 1)) := by
  refine ⟨⟨.openParen, ⟨0, 1⟩, "("⟩, rfl, ?_⟩
  have whole : ("(" ++ text).toList = ['('] ++ text.toList := by simp
  have scanned := @scanFrom_matches _ _ text.toList 0 .openParen fun _ _ => rfl
  unfold ofText scan
  rw [whole, scanned, ← visible_map_relocate, ← scanFrom_add]
  rfl

/-- A closing parenthesis is a token of its own. -/
theorem Kind.Matches.eq_closing {kind : Kind} {text : List Char} (h : kind.Matches text)
    (closing : ')' ∈ text) : text = [')'] := by
  cases h with
  | whitespace all | name all | int all =>
    exact absurd (all ')' closing) (by decide)
  | float left right =>
    rcases List.mem_append.mp closing with member | member
    · exact absurd (left ')' member) (by decide)
    · rcases List.mem_cons.mp member with point | member
      · cases point
      · exact absurd (right ')' member) (by decide)
  | add | mul | openParen | closeParen => exact (List.eq_of_mem_singleton closing) ▸ rfl

theorem exists_ofText_closing (text : String) :
    ∃ closing : Token, closing.kind = .closeParen ∧ ofText (text ++ ")") = ofText text ++ [closing] := by
  have whole : (text ++ ")").toList = text.toList ++ [')'] := by simp
  let start := 0 + utf8Length text.toList
  have alone := @scanFrom_of_matches _ [')'] start .closeParen
  refine ⟨⟨.closeParen, ⟨start, start + 1⟩, ")"⟩, rfl, ?_⟩
  unfold ofText scan
  rcases scanFrom_append 0 text.toList [')'] with apart | ⟨⟨s⟩⟩
  · rw [whole, apart, alone, visible_append]
    rfl
  · -- The token of the parenthesis would have characters in front of it.
    have right := s.of_char.1
    have single := s.follows.eq_closing (by simp [right])
    rw [right] at single
    exact absurd (List.append_left_eq_self.mp single) s.left_ne_nil

theorem exists_ofText_parens (text : String) :
    ∃ opening closing : Token, opening.kind = .openParen ∧ closing.kind = .closeParen ∧
      ofText ("(" ++ text ++ ")") =
        opening :: (ofText text).map (relocate (.forward 1)) ++ [closing] := by
  obtain ⟨closing, closes, behind⟩ := exists_ofText_closing ("(" ++ text)
  obtain ⟨opening, opens, front⟩ := exists_ofText_opening text
  exact ⟨opening, closing, opens, closes, by rw [behind, front]⟩

/-! ## White space in between -/

theorem ofText_append_space (text behind : String) :
    ofText (text ++ " " ++ behind) =
      ofText text ++ (ofText behind).map (relocate (.forward (text.utf8ByteSize + 1))) := by
  -- White space at the end of the text goes with the space.
  let front := text.toList.rdropWhile Char.isWhitespace
  let blanks := text.toList.rtakeWhile Char.isWhitespace
  have split : text.toList = front ++ blanks := (List.rdropWhile_append_rtakeWhile ..).symm
  have blank : ∀ c ∈ blanks, c.isWhitespace = true := fun _ => List.mem_rtakeWhile_imp
  have ends : ∀ c ∈ front.getLast?, c.isWhitespace = false := by
    intro c member
    obtain ⟨filled, rfl⟩ := List.mem_getLast?_eq_getLast member
    exact Bool.eq_false_iff.mpr (List.rdropWhile_last_not _ _ filled)
  have longer : ∀ c ∈ blanks ++ [' '], c.isWhitespace = true :=
    List.forall_mem_append.mpr ⟨blank, by simp [Char.isWhitespace]⟩
  have size : text.utf8ByteSize + 1 = utf8Length front + utf8Length (blanks ++ [' ']) := by
    rw [← utf8Length_toList, split, utf8Length_append, utf8Length_append, Nat.add_assoc]
    rfl
  have whole : (text ++ " " ++ behind).toList = front ++ ((blanks ++ [' ']) ++ behind.toList) := by
    simp [split]
  have headed : ∀ c ∈ ((blanks ++ [' ']) ++ behind.toList).head?, c.isWhitespace = true := by
    rw [List.head?_append_of_ne_nil _ (by simp)]
    exact fun c member => longer c (List.mem_of_mem_head? member)
  unfold ofText scan
  rw [whole, scanFrom_append_blank ends headed, visible_append,
    visible_scanFrom_blank_append _ longer, split,
    scanFrom_append_blank ends fun c member => blank c (List.mem_of_mem_head? member),
    visible_append, visible_scanFrom_blank _ blank, List.append_nil, ← visible_map_relocate,
    ← scanFrom_add, size, Nat.zero_add, Nat.zero_add]

theorem exists_ofText_spaced (op : Operator) (text behind : String) :
    ∃ (sign : Token) (distance : Nat), sign.kind = op.kind ∧
      ofText (text ++ op.spaced ++ behind) =
        ofText text ++ sign :: (ofText behind).map (relocate (.forward distance)) := by
  have whole : text ++ op.spaced ++ behind =
      text ++ " " ++ String.singleton op.symbol ++ " " ++ behind := by
    apply String.toList_injective
    simp [Operator.spaced]
  have sign := @ofText_of_matches op.kind (String.singleton op.symbol)
    (by simpa using matches_sign op) (by cases op <;> rfl)
  rw [whole, ofText_append_space, ofText_append_space, sign, List.append_assoc]
  exact ⟨_, _, rfl, rfl⟩

end Token

end SymbolicCalculus
