import SymbolicCalculus.Proofs.Double.Overflow
import SymbolicCalculus.Proofs.Expr.Reading
import SymbolicCalculus.Proofs.Syntax.Relocation
import SymbolicCalculus.Proofs.Token.Prolonging

/-!
Texts that can still become expressions. Of the texts that are refused, these are the ones that end
too early, and their errors tell them from those in which something is wrong.
-/

set_option autoImplicit false

namespace SymbolicCalculus

/-- What a sentence is made of matters, and not where it stands. -/
theorem Phrase.Sentence.of_content {tokens tokens' : List Token} (h : Phrase.Sentence tokens)
    (same : tokens.map Token.content = tokens'.map Token.content) : Phrase.Sentence tokens' := by
  have moved := Token.map_relocate_origin same
  have walks : Walks [] (tokens.map (Token.relocate .origin)) := walks_relocate.mpr h.walks
  have ends : ¬Blocks (tokens.map (Token.relocate .origin)) none :=
    fun blocks => h.not_blocks (blocks_relocate.mp blocks)
  rw [moved] at walks ends
  exact sentence_of_walks (walks_relocate.mp walks) fun blocks => ends (blocks_relocate.mpr blocks)

/-- What completes a text can be written out. -/
theorem legal_completion (tokens : List Token) : ∀ token ∈ completion tokens, token.Legal := by
  intro token member
  rcases List.mem_append.mp member with operand | closing
  · split at operand
    · obtain rfl := List.mem_singleton.mp operand
      exact ⟨show Token.Kind.name.Matches ['x'] from .name (by simp), rfl⟩
    · cases operand
  · obtain rfl := List.eq_of_mem_replicate closing
    exact ⟨.closeParen, rfl⟩

/-! ## Texts that a scan gets through -/

/-- The start of a token can come wherever the token can. -/
theorem Admits.of_begins {tokens : List Token} {token longer : Token} (begins : token.Begins longer)
    (h : Admits tokens longer) : Admits tokens token := by
  obtain ⟨grows, right, lexeme⟩ := begins
  have finite (h : longer.value.isFinite = true) : token.value.isFinite = true := by
    unfold Token.value at *
    rw [← lexeme] at h
    exact Decimal.isFinite_of_append h
  rcases grows with same | ⟨int, float⟩
  · unfold Admits at *
    rw [same]
    split
    · rename_i due
      rw [if_pos due] at h
      exact h.imp_right (Or.imp_right (And.imp_right finite))
    · rename_i ended
      rwa [if_neg ended] at h
  · have numeral := @admits_numeral_iff tokens longer (by rw [float]; rfl)
    exact (admits_numeral_iff (by rw [int]; rfl)).mpr ((numeral.mp h).imp_right finite)

theorem walks_visible_of_begins {front more : List Token} {token longer : Token}
    (begins : token.Begins longer) (h : Walks front (Token.visible (longer :: more))) :
    Walks front (Token.visible [token]) := by
  have same := begins.isWhitespace_eq
  cases blank : token.isWhitespace with
  | true => simp [Token.visible, blank, Walks]
  | false =>
    rw [blank] at same
    simp only [Token.visible, List.filter_cons, blank, same, Bool.not_false, if_true,
      List.filter_nil] at h ⊢
    exact ⟨h.1.of_begins begins, trivial⟩

/-- A scan gets through the text, but perhaps for a point behind a whole number at the end. -/
inductive Extensible (text : String) : Prop where
  | through (walks : Walks [] (Token.ofText text))
  | pointed {tokens : List Token} {whole : Token} (ends : Token.EndsInPoint text tokens whole)
      (walks : Walks [] (Token.visible (tokens ++ [whole])))

/-- What is wrong with a text stays wrong, whatever is put behind it. -/
theorem extensible_of_append {text suffix : String}
    (h : Walks [] (Token.ofText (text ++ suffix))) : Extensible text := by
  unfold Token.ofText at h
  cases Token.prolongs_append text suffix with
  | apart scanned =>
    rw [scanned, Token.visible_append] at h
    exact .through (walks_append.mp h).1
  | grown scanned begins scanned' =>
    rw [scanned', Token.visible_append] at h
    obtain ⟨front, back⟩ := walks_append.mp h
    refine .through ?_
    rw [Token.ofText, scanned, Token.visible_append]
    exact walks_append.mpr ⟨front, walks_visible_of_begins begins back⟩
  | pointed ends begins scanned' =>
    rw [scanned', Token.visible_append] at h
    obtain ⟨front, back⟩ := walks_append.mp h
    refine .pointed ends ?_
    rw [Token.visible_append]
    exact walks_append.mpr ⟨front, walks_visible_of_begins begins back⟩

namespace Token.EndsInPoint

variable {text : String} {tokens : List Token} {whole : Token}

theorem ofText_eq (h : EndsInPoint text tokens whole) :
    ofText text = visible (tokens ++ [whole]) ++ [pointAt whole.span.stop] := by
  have regroup : tokens ++ [whole, pointAt whole.span.stop] =
      tokens ++ [whole] ++ [pointAt whole.span.stop] := by simp
  rw [ofText, h.scanned, regroup, visible_append]
  rfl

theorem dark (h : EndsInPoint text tokens whole) : whole.isWhitespace = false := by
  rw [isWhitespace, h.kind]
  rfl

theorem not_expectsOperand (h : EndsInPoint text tokens whole) :
    expectsOperand (visible (tokens ++ [whole])) = false := by
  have last : visible [whole] = [whole] := by simp [visible, h.dark]
  rw [visible_append, last, expectsOperand_append_singleton, h.kind]
  rfl

/-- What ended in a number and a point goes on with a digit as one number. -/
theorem walks_append_zero (h : EndsInPoint text tokens whole)
    (walks : Walks [] (visible (tokens ++ [whole]))) : Walks [] (ofText (text ++ "0")) := by
  obtain ⟨span, scanned⟩ := h.scan_append_zero
  rw [visible_append] at walks
  obtain ⟨front, back⟩ := walks_append.mp walks
  rw [ofText, scanned, visible_append]
  refine walks_append.mpr ⟨front, ?_, trivial⟩
  have admits : Admits (visible tokens) whole := by
    simpa [visible, h.dark, Walks] using back
  have pointless := Decimal.point_not_mem h.digits
  have zero : (whole.lexeme ++ ".0").toList = whole.lexeme.toList ++ ['.', '0'] := by simp
  obtain ⟨due, finite⟩ := (admits_numeral_iff (by rw [h.kind]; rfl)).mp admits
  refine (admits_numeral_iff rfl).mpr ⟨due, ?_⟩
  unfold value
  rw [zero]
  exact Decimal.isFinite_append_zero pointless finite

end Token.EndsInPoint

/-! ## Their errors -/

/-- The errors of texts that end too early. The last token of such a text can be a point that no
digit follows yet. -/
inductive Unfinished (text : String) : SyntaxError → Prop where
  | ended (spans : List Span) : Unfinished text ⟨spans, .unexpectedEnd⟩
  | unclosed (spans : List Span) : Unfinished text ⟨spans, .unclosedParenthesis true⟩
  | point {front : String} {whole : Token} (expected : List Token.Kind) (ends : text = front ++ ".")
      (scanned : whole ∈ Token.scan text) (kind : whole.kind = .int)
      (stops : whole.span.stop = front.utf8ByteSize) :
      Unfinished text ⟨[⟨front.utf8ByteSize, text.utf8ByteSize⟩], .unexpectedToken expected .symbol⟩

theorem Token.EndsInPoint.unfinished {text : String} {tokens : List Token} {whole : Token}
    (h : EndsInPoint text tokens whole) (expected : List Kind) :
    Unfinished text (.unexpected expected (pointAt whole.span.stop)) := by
  obtain ⟨front, split, stop⟩ := h.exists_front
  have size : text.utf8ByteSize = front.utf8ByteSize + 1 := by
    rw [split, String.utf8ByteSize_append]
    rfl
  have error := Unfinished.point expected split (by simp [h.scanned]) h.kind stop
  rw [size, ← stop] at error
  exact error

namespace Tree

variable {text : String} {error : SyntaxError}

/-- What is not found at a token is found at the end. -/
theorem walks_of_parse_error (h : parse text = .error error) (late : error.fault.isOfToken = false) :
    Walks [] (Token.ofText text) := by
  obtain ⟨front, rest, split, walks, _, rfl⟩ := exists_diagnosis h
  cases rest with
  | nil => rwa [split, List.append_nil]
  | cons next rest =>
    rw [List.head?_cons, isOfToken_diagnose] at late
    cases late

theorem unfinished_of_extensible (h : Extensible text) (refused : parse text = .error error) :
    Unfinished text error := by
  cases h with
  | through walks =>
    obtain ⟨front, rest, split, _, blocks, rfl⟩ := exists_diagnosis refused
    cases rest with
    | nil =>
      simp only [diagnose, List.head?_nil]
      split
      · exact .ended _
      · exact .unclosed _
    | cons next rest =>
      rw [split] at walks
      exact absurd (walks_append.mp walks).2.1 blocks
  | @pointed tokens whole ends walks =>
    have found := parse_of_blocks ends.ofText_eq walks (not_admits_symbol rfl)
    rw [List.head?_cons, diagnose_symbol ends.not_expectsOperand rfl] at found
    obtain rfl := Except.error.inj (found.symm.trans refused)
    exact ends.unfinished _

theorem extensible_of_unfinished (h : Unfinished text error) (refused : parse text = .error error) :
    Extensible text := by
  cases h with
  | ended spans => exact .through (walks_of_parse_error refused rfl)
  | unclosed spans => exact .through (walks_of_parse_error refused rfl)
  | @point front whole expected split scanned kind stops =>
    obtain ⟨tokens, ends⟩ := Token.exists_endsInPoint split scanned kind stops
    refine .pointed ends ?_
    obtain ⟨read, rest, leads, walks, _, same⟩ := exists_diagnosis refused
    -- The token that is wrong reaches to the end of the text, so it is the point.
    obtain ⟨next, head, place, _⟩ := exists_of_diagnose_eq_unexpected same.symm
    obtain ⟨more, rfl⟩ := List.head?_eq_some_iff.mp head
    obtain rfl := Token.eq_nil_of_stop leads (by rw [place])
    rw [ends.ofText_eq] at leads
    obtain ⟨rfl, _⟩ := List.append_inj' leads rfl
    exact walks

end Tree

namespace Expr

theorem exists_suffix_of_walks {text : String} (walks : Walks [] (Token.ofText text)) :
    ∃ suffix e, parse (text ++ suffix) = .ok e := by
  obtain ⟨through, ends⟩ := walks_completion (Token.ofText text)
  have sentence := sentence_of_walks (walks_append.mpr ⟨walks, through⟩) ends
  have same := Token.content_ofText_append_spaced (legal_completion (Token.ofText text)) text
  exact ⟨_, (parse_eq_ok_iff _).1.mpr (sentence.of_content same.symm)⟩

theorem exists_suffix_iff_extensible {text : String} :
    (∃ suffix e, parse (text ++ suffix) = .ok e) ↔ Extensible text := by
  constructor
  · rintro ⟨suffix, read⟩
    exact extensible_of_append ((parse_eq_ok_iff _).1.mp read).walks
  · intro extensible
    cases extensible with
    | through walks => exact exists_suffix_of_walks walks
    | pointed ends walks =>
      obtain ⟨suffix, e, read⟩ := exists_suffix_of_walks (ends.walks_append_zero walks)
      rw [String.append_assoc] at read
      exact ⟨_, e, read⟩

/-- Unfinished input is told from wrong input. Some text can be put behind a text to make the whole
an expression just if the text is one already, or else its error is that of an unfinished text. -/
theorem exists_suffix_iff (text : String) :
    (∃ suffix e, parse (text ++ suffix) = .ok e) ↔
      (∃ e, parse text = .ok e) ∨ ∃ error, parse text = .error error ∧ Unfinished text error := by
  rw [exists_suffix_iff_extensible]
  constructor
  · intro extensible
    cases read : parse text with
    | ok e => exact .inl ⟨e, rfl⟩
    | error error =>
      exact .inr ⟨error, rfl, Tree.unfinished_of_extensible extensible (parse_eq_error.mp read)⟩
  · rintro (read | ⟨error, refused, unfinished⟩)
    · exact .through ((parse_eq_ok_iff text).1.mp read).walks
    · exact Tree.extensible_of_unfinished unfinished (parse_eq_error.mp refused)

end Expr

end SymbolicCalculus
