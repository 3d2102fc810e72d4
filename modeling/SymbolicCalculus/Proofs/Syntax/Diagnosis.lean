import SymbolicCalculus.Proofs.Syntax.WholeText
import SymbolicCalculus.Proofs.Token.Lexeme

/-!
The error of a text that is no sentence. It is fixed by the longest part in front that some sentence
starts with, and by what comes next.
-/

set_option autoImplicit false

namespace SymbolicCalculus

namespace Phrase

/-- Some sentence starts with these tokens. -/
def Viable (tokens : List Token) : Prop := ∃ more, Sentence (tokens ++ more)

theorem Sentence.walks {tokens : List Token} (h : Sentence tokens) : Walks [] tokens := by
  obtain ⟨⟨tree, derives⟩, fits⟩ := h
  exact derives.walks fits rfl

theorem Sentence.not_blocks {tokens : List Token} (h : Sentence tokens) : ¬Blocks tokens none := by
  obtain ⟨⟨tree, derives⟩, _⟩ := h
  have ended := derives.not_expectsOperand []
  have closed := derives.nest_append []
  rw [List.nil_append] at ended closed
  rintro (due | inside)
  · rw [ended] at due
    contradiction
  · rw [closed] at inside
    exact absurd inside (Nat.lt_irrefl 0)

end Phrase

theorem walks_dark {before tokens : List Token} (h : Walks before tokens) :
    ∀ token ∈ tokens, token.isWhitespace = false := by
  induction tokens generalizing before with
  | nil => simp
  | cons next rest ih =>
    obtain ⟨admits, rest⟩ := h
    have dark : next.isWhitespace = false := by
      unfold Token.isWhitespace Token.Kind.isWhitespace
      split
      · rename_i blank
        simp [Admits, blank, Token.Kind.isNumeral] at admits
      · rfl
    simpa [dark] using ih rest

/-- A scan that gets to the end, with nothing due or open, has read a sentence. -/
theorem sentence_of_walks {tokens : List Token} (walks : Walks [] tokens)
    (ends : ¬Blocks tokens none) : Phrase.Sentence tokens := by
  have visible : Token.visible tokens = tokens := by
    simpa [Token.visible] using walks_dark walks
  have meets := Parser.whole_meets tokens
  cases reads : Cursor.readWhole Parser.expression (.start tokens) with
  | success tree stop advanced =>
    rw [reads] at meets
    obtain ⟨derives, fits⟩ := meets
    rw [visible] at derives fits
    exact ⟨⟨tree, derives⟩, fits⟩
  | failure error stop =>
    rw [reads] at meets
    -- A refusal would come from a place where the scan is blocked.
    obtain ⟨read, rest, ahead, _, blocks, _⟩ := meets
    rw [Cursor.future_start, visible] at ahead
    rw [Cursor.past_start, List.nil_append] at blocks
    cases rest with
    | nil => exact absurd (by simpa [ahead] using blocks) ends
    | cons next rest =>
      rw [ahead] at walks
      exact absurd (walks_append.mp walks).2.1 blocks

/-- What is due is put behind the tokens, and then what is open is closed. -/
def completion (tokens : List Token) : List Token :=
  (if expectsOperand tokens then [⟨.name, .point 0, "x"⟩] else []) ++
    List.replicate (Nest.of tokens).depth ⟨.closeParen, .point 0, ")"⟩

theorem walks_closings {tokens : List Token} {closing : Token} (closes : closing.kind = .closeParen)
    (ended : expectsOperand tokens = false) {count : Nat} (inside : (Nest.of tokens).depth = count) :
    Walks tokens (List.replicate count closing) ∧
      ¬Blocks (tokens ++ List.replicate count closing) none := by
  induction count generalizing tokens with
  | zero => simp [Walks, Blocks, ended, inside]
  | succ count ih =>
    have deeper : 0 < (Nest.of tokens).depth := by omega
    have ended' : expectsOperand (tokens ++ [closing]) = false := by
      rw [expectsOperand_append_singleton, closes]
      rfl
    have left : (Nest.of (tokens ++ [closing])).depth = count := by
      rw [Nest.of_snoc, Nest.depth_push, Token.nesting, closes, inside]
      rfl
    obtain ⟨walks, ends⟩ := ih ended' left
    refine ⟨⟨admits_closing ended closes deeper, walks⟩, ?_⟩
    rwa [List.append_assoc] at ends

theorem walks_completion (tokens : List Token) :
    Walks tokens (completion tokens) ∧ ¬Blocks (tokens ++ completion tokens) none := by
  unfold completion
  cases due : expectsOperand tokens with
  | false => exact walks_closings rfl due rfl
  | true =>
    let operand : Token := ⟨.name, .point 0, "x"⟩
    have ended : expectsOperand (tokens ++ [operand]) = false := expectsOperand_append_singleton ..
    have inside : (Nest.of (tokens ++ [operand])).depth = (Nest.of tokens).depth := by
      rw [Nest.of_snoc, Nest.depth_push]
      rfl
    obtain ⟨walks, ends⟩ := @walks_closings _ ⟨.closeParen, .point 0, ")"⟩ rfl ended _ inside
    rw [List.append_assoc] at ends
    exact ⟨⟨by simp [Admits, due], walks⟩, ends⟩

/-- Sentences start with just the tokens that a scan gets through. -/
theorem viable_iff_walks {tokens : List Token} : Phrase.Viable tokens ↔ Walks [] tokens := by
  constructor
  · rintro ⟨more, sentence⟩
    exact (walks_append.mp sentence.walks).1
  · intro walks
    obtain ⟨through, ends⟩ := walks_completion tokens
    exact ⟨completion tokens, sentence_of_walks (walks_append.mpr ⟨walks, through⟩) ends⟩

/-- The tokens in front are the most that some sentence starts with. -/
structure Phrase.Longest (front tokens : List Token) : Prop where
  leads : front <+: tokens
  viable : Viable front
  longest : ∀ other, other <+: tokens → Viable other → other.length ≤ front.length

namespace Tree

theorem endSpan_start (text : String) :
    (Cursor.start (Token.scan text)).endSpan = .point text.utf8ByteSize := by
  rw [Cursor.endSpan_eq, Cursor.tokens_start, ← utf8Length_toList]
  cases last : (Token.scan text).getLast? with
  | some token =>
    simp only [Token.stop_of_getLast?_scanFrom last, Nat.zero_add]
  | none =>
    have empty : text.toList = [] := by
      cases chars : text.toList with
      | nil => rfl
      | cons c rest => simp [Token.scan, chars, Token.scanFrom_cons] at last
    simp [empty]

/-- Each error is the diagnosis of the place where a scan of the text first cannot go on. -/
theorem exists_diagnosis {text : String} {error : SyntaxError} (h : parse text = .error error) :
    ∃ front rest, Token.ofText text = front ++ rest ∧ Walks [] front ∧ Blocks front rest.head? ∧
      error = diagnose (.point text.utf8ByteSize) front rest.head? := by
  obtain ⟨front, rest, split, walks, blocks, same⟩ := parse_eq_error h
  rw [endSpan_start] at same
  exact ⟨front, rest, split, walks, blocks, same⟩

/-- Where a scan first cannot go on is where the longest viable part ends. -/
theorem longest_of_blocks {front rest tokens : List Token} (split : tokens = front ++ rest)
    (walks : Walks [] front) (blocks : Blocks front rest.head?) : Phrase.Longest front tokens := by
  refine ⟨⟨rest, split.symm⟩, viable_iff_walks.mpr walks, ?_⟩
  rintro other ⟨more, leads⟩ viable
  by_contra longer
  have start : front <+: tokens := ⟨rest, split.symm⟩
  obtain ⟨extra, rfl⟩ := List.prefix_of_prefix_length_le start ⟨more, leads⟩ (by omega)
  cases extra with
  | nil => simp at longer
  | cons next extra =>
    -- A longer viable part would go on with the token that blocks.
    have admits : Admits front next := (walks_append.mp (viable_iff_walks.mp viable)).2.1
    have same : rest = next :: extra ++ more := by
      rw [split, List.append_assoc] at leads
      exact (List.append_cancel_left leads).symm
    rw [same] at blocks
    exact blocks admits

theorem longest_unique {first second tokens : List Token} (h : Phrase.Longest first tokens)
    (h' : Phrase.Longest second tokens) : first = second := by
  have length := Nat.le_antisymm (h'.longest first h.leads h.viable)
    (h.longest second h'.leads h'.viable)
  rw [List.prefix_iff_eq_take.mp h.leads, List.prefix_iff_eq_take.mp h'.leads, length]

/-- Texts that are no sentences are refused, each with the one error that the longest viable part in
front and the token behind it call for. -/
theorem parse_eq_error_iff (text : String) (error : SyntaxError) :
    parse text = .error error ↔
      ¬Phrase.Sentence (Token.ofText text) ∧
        ∃ front rest, Token.ofText text = front ++ rest ∧
          Phrase.Longest front (Token.ofText text) ∧
          error = diagnose (.point text.utf8ByteSize) front rest.head? := by
  have found {error : SyntaxError} (h : parse text = .error error) :
      ∃ front rest, Token.ofText text = front ++ rest ∧
        Phrase.Longest front (Token.ofText text) ∧
        error = diagnose (.point text.utf8ByteSize) front rest.head? := by
    obtain ⟨front, rest, split, walks, blocks, same⟩ := parse_eq_error h
    rw [endSpan_start] at same
    exact ⟨front, rest, split, longest_of_blocks split walks blocks, same⟩
  constructor
  · intro h
    refine ⟨?_, found h⟩
    rintro ⟨⟨tree, derives⟩, fits⟩
    rw [parse_eq_ok.mpr ⟨derives, fits⟩] at h
    contradiction
  · rintro ⟨refused, front, rest, split, longest, rfl⟩
    cases read : parse text with
    | ok tree =>
      obtain ⟨derives, fits⟩ := parse_eq_ok.mp read
      exact absurd ⟨⟨tree, derives⟩, fits⟩ refused
    | error error =>
      obtain ⟨front', rest', split', longest', rfl⟩ := found read
      obtain rfl := longest_unique longest longest'
      rw [split] at split'
      rw [List.append_cancel_left split']

end Tree

end SymbolicCalculus
