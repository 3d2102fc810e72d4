import SymbolicCalculus.Proofs.Syntax.Diagnosis
import SymbolicCalculus.Proofs.Token.Relocation

/-!
Reading does not depend on places. Tokens at other places spell the same trees there, and what is
wrong with them is the same, at the places of the same tokens.
-/

set_option autoImplicit false

namespace SymbolicCalculus

def Literal.relocate (r : Relocation) : Literal → Literal
  | number value span => number value (span.relocate r)
  | symbol name span => symbol name (span.relocate r)

def Connective.relocate (r : Relocation) (connective : Connective) : Connective :=
  { connective with span := connective.span.relocate r }

/-- The tree with all its spans changed, those of its parts and of its operators included. -/
def Tree.relocate (r : Relocation) : Tree → Tree
  | literal value => literal (value.relocate r)
  | paren inner span => paren (inner.relocate r) (span.relocate r)
  | binary lhs connective rhs span =>
    binary (lhs.relocate r) (connective.relocate r) (rhs.relocate r) (span.relocate r)

theorem Tree.span_relocate (r : Relocation) (tree : Tree) :
    (tree.relocate r).span = tree.span.relocate r := by
  cases tree with
  | literal value => cases value <;> rfl
  | paren | binary => rfl

theorem Tree.relocate_join (r : Relocation) (lhs : Tree) (connective : Connective) (rhs : Tree) :
    (lhs.join connective rhs).relocate r =
      (lhs.relocate r).join (connective.relocate r) (rhs.relocate r) := by
  rw [join, relocate, join, Span.relocate_through, span_relocate, span_relocate]

theorem Phrase.Derives.relocate (r : Relocation) {phrase : Phrase} {tokens : List Token}
    {tree : Tree} (h : phrase.Derives tokens tree) :
    phrase.Derives (tokens.map (Token.relocate r)) (tree.relocate r) := by
  induction h using growing with
  | @numeral token kind => exact @numeral (token.relocate r) kind
  | @name token kind => exact @name (token.relocate r) kind
  | @group opening closing tokens inner opens closes inside ih =>
    have moved := @group (opening.relocate r) (closing.relocate r) _ _ opens closes ih
    simpa [Tree.relocate] using moved
  | single _ ih => exact ih.single
  | @snoc op tokens more sign tree rhs _ kind _ ihLeft ihRight =>
    have kind' : (sign.relocate r).kind = op.kind := kind
    have moved := ihLeft.snoc kind' ihRight
    rw [Tree.relocate_join, List.map_append, List.map_cons]
    exact moved

/-! ## What is wrong with tokens -/

@[simp] theorem expectsOperand_map_relocate (r : Relocation) (tokens : List Token) :
    expectsOperand (tokens.map (Token.relocate r)) = expectsOperand tokens := by
  unfold expectsOperand
  rw [List.getLast?_map]
  cases tokens.getLast? <;> rfl

theorem cover_map_relocate (r : Relocation) {tokens : List Token} (nonempty : tokens ≠ []) :
    cover (tokens.map (Token.relocate r)) = (cover tokens).relocate r := by
  obtain ⟨first, rest, rfl⟩ := List.exists_cons_of_ne_nil nonempty
  simp only [cover, List.map_cons, List.head?_cons, List.getLast?_cons, List.getLast?_map]
  cases rest.getLast? <;> rfl

namespace Nest

def relocate (r : Relocation) (nest : Nest) : Nest :=
  ⟨nest.inner.map (Token.relocate r), nest.outer.map (·.map (Token.relocate r))⟩

variable (r : Relocation)

@[simp] theorem depth_relocate (nest : Nest) : (nest.relocate r).depth = nest.depth :=
  List.length_map _

theorem opening?_relocate (nest : Nest) :
    (nest.relocate r).opening? = nest.opening?.map (Token.relocate r) := by
  obtain ⟨inner, outer⟩ := nest
  cases outer with
  | nil => rfl
  | cons around outer => simp [relocate, opening?]

theorem push_relocate (nest : Nest) (token : Token) :
    (nest.relocate r).push (token.relocate r) = (nest.push token).relocate r := by
  by_cases opens : token.kind = .openParen
  · rw [push_opening _ opens, push_opening _ (by exact opens)]
    simp [relocate]
  · by_cases closes : token.kind = .closeParen
    · cases outer : nest.outer with
      | nil => simp [push, closes, relocate, outer]
      | cons around outer' => simp [push, closes, relocate, outer]
    · rw [push_plain _ opens closes, push_plain _ (by exact opens) (by exact closes)]
      simp [relocate]

theorem of_map_relocate (tokens : List Token) :
    of (tokens.map (Token.relocate r)) = (of tokens).relocate r := by
  have step (nest : Nest) : (tokens.map (Token.relocate r)).foldl push (nest.relocate r) =
      (tokens.foldl push nest).relocate r := by
    induction tokens generalizing nest with
    | nil => rfl
    | cons token tokens ih => rw [List.map_cons, List.foldl_cons, push_relocate, ih, List.foldl_cons]
  exact step empty

/-- What has just ended is in the innermost part. -/
theorem inner_ne_nil {tokens : List Token} (ended : expectsOperand tokens = false) :
    (of tokens).inner ≠ [] := by
  rcases List.eq_nil_or_concat tokens with rfl | ⟨front, last, rfl⟩
  · cases ended
  · rw [List.concat_eq_append, expectsOperand_append_singleton] at ended
    rw [List.concat_eq_append, of_snoc]
    unfold push
    split
    · rename_i opens
      rw [opens] at ended
      cases ended
    · simp
    · simp

end Nest

theorem admits_relocate {r : Relocation} {tokens : List Token} {next : Token} :
    Admits (tokens.map (Token.relocate r)) (next.relocate r) ↔ Admits tokens next := by
  unfold Admits
  rw [expectsOperand_map_relocate, Nest.of_map_relocate, Nest.depth_relocate]
  rfl

theorem walks_relocate {r : Relocation} {tokens rest : List Token} :
    Walks (tokens.map (Token.relocate r)) (rest.map (Token.relocate r)) ↔ Walks tokens rest := by
  induction rest generalizing tokens with
  | nil => rfl
  | cons next rest ih =>
    have behind := @ih (tokens ++ [next])
    rw [List.map_append] at behind
    exact and_congr admits_relocate behind

theorem blocks_relocate {r : Relocation} {tokens : List Token} {next : Option Token} :
    Blocks (tokens.map (Token.relocate r)) (next.map (Token.relocate r)) ↔ Blocks tokens next := by
  cases next with
  | none =>
    unfold Blocks
    rw [Option.map_none, expectsOperand_map_relocate, Nest.of_map_relocate, Nest.depth_relocate]
  | some next => exact not_congr admits_relocate

def SyntaxError.relocate (r : Relocation) (error : SyntaxError) : SyntaxError :=
  { error with spans := error.spans.map (Span.relocate r) }

theorem diagnose_relocate (r : Relocation) (finish : Span) (tokens : List Token)
    (next : Option Token) :
    diagnose (finish.relocate r) (tokens.map (Token.relocate r)) (next.map (Token.relocate r)) =
      (diagnose finish tokens next).relocate r := by
  cases next with
  | none =>
    simp only [diagnose, Option.map_none, expectsOperand_map_relocate, Nest.of_map_relocate,
      Nest.opening?_relocate]
    split
    · rfl
    · cases (Nest.of tokens).opening? <;> rfl
  | some next =>
    cases ended : expectsOperand tokens with
    | true =>
      simp only [diagnose, Option.map_some, expectsOperand_map_relocate, ended, if_true,
        Nest.of_map_relocate, Nest.depth_relocate, List.getLast?_map, Token.kind_relocate]
      cases next.kind with
      | closeParen =>
        -- At a closing parenthesis it matters whether the pair is empty.
        cases tokens.getLast? with
        | none =>
          simp only [Option.map_none]
          split <;> rfl
        | some last =>
          obtain ⟨kind, span, lexeme⟩ := last
          cases kind with
          | openParen => rfl
          | _ =>
            simp only [Option.map_some, Token.relocate]
            split <;> rfl
      | _ => rfl
    | false =>
      have inside := cover_map_relocate r (Nest.inner_ne_nil ended)
      simp only [diagnose, Option.map_some, expectsOperand_map_relocate, ended, Nest.of_map_relocate,
        Nest.depth_relocate, Token.kind_relocate]
      cases next.kind <;> simp [SyntaxError.relocate, SyntaxError.unexpected, Nest.relocate, inside]

/-- Where a text ends does not matter before its end. -/
theorem diagnose_finish {front : List Token} {next : Option Token} (finish finish' : Span)
    (within : next = none → expectsOperand front = false) :
    diagnose finish front next = diagnose finish' front next := by
  cases next with
  | none => simp [diagnose, within rfl]
  | some next => rfl

/-- Only the place of the error can depend on where a text ends. -/
theorem fault_diagnose (finish finish' : Span) (tokens : List Token) (next : Option Token) :
    (diagnose finish tokens next).fault = (diagnose finish' tokens next).fault := by
  cases next with
  | none =>
    simp only [diagnose]
    split <;> rfl
  | some next => rfl

theorem fault_diagnose_relocate (r : Relocation) (finish finish' : Span) (tokens : List Token)
    (next : Option Token) :
    (diagnose finish' (tokens.map (Token.relocate r)) (next.map (Token.relocate r))).fault =
      (diagnose finish tokens next).fault := by
  rw [fault_diagnose finish' (finish.relocate r), diagnose_relocate]
  rfl

namespace Tree

/-- Where a scan cannot go on is where the text is refused. -/
theorem parse_of_blocks {text : String} {front rest : List Token}
    (split : Token.ofText text = front ++ rest) (walks : Walks [] front)
    (blocks : Blocks front rest.head?) :
    parse text = .error (diagnose (.point text.utf8ByteSize) front rest.head?) := by
  cases read : parse text with
  | ok tree =>
    obtain ⟨derives, fits⟩ := parse_eq_ok.mp read
    have sentence : Phrase.Sentence (front ++ rest) := by
      rw [← split]
      exact ⟨⟨tree, derives⟩, fits⟩
    cases rest with
    | nil =>
      rw [List.append_nil] at sentence
      exact absurd blocks sentence.not_blocks
    | cons next rest => exact absurd (walks_append.mp sentence.walks).2.1 blocks
  | error error =>
    obtain ⟨front', rest', split', walks', blocks', rfl⟩ := exists_diagnosis read
    have longest := longest_of_blocks split walks blocks
    have longest' := longest_of_blocks split' walks' blocks'
    obtain rfl : front = front' := longest_unique longest longest'
    obtain rfl : rest = rest' := List.append_cancel_left (split.symm.trans split')
    rfl

variable {text text' : String} {r : Relocation}

theorem parse_relocate (same : Token.ofText text' = (Token.ofText text).map (Token.relocate r))
    {tree : Tree} (h : parse text = .ok tree) : parse text' = .ok (tree.relocate r) := by
  obtain ⟨derives, fits⟩ := parse_eq_ok.mp h
  rw [parse_eq_ok, same]
  refine ⟨derives.relocate r, ?_⟩
  intro token member
  obtain ⟨before, found, rfl⟩ := List.mem_map.mp member
  exact fits before found

/-- The same token is wrong, or the end. -/
theorem parse_error_relocate
    (same : Token.ofText text' = (Token.ofText text).map (Token.relocate r)) {error : SyntaxError}
    (h : parse text = .error error) :
    ∃ front next, front ++ next.toList <+: Token.ofText text ∧
      error = diagnose (.point text.utf8ByteSize) front next ∧
      parse text' = .error (diagnose (.point text'.utf8ByteSize) (front.map (Token.relocate r))
        (next.map (Token.relocate r))) := by
  obtain ⟨front, rest, split, walks, blocks, rfl⟩ := exists_diagnosis h
  have split' : Token.ofText text' =
      front.map (Token.relocate r) ++ rest.map (Token.relocate r) := by
    rw [same, split, List.map_append]
  have refused := parse_of_blocks split' (walks_relocate.mpr walks)
    (by rw [List.head?_map]; exact blocks_relocate.mpr blocks)
  rw [List.head?_map] at refused
  refine ⟨front, rest.head?, ?_, rfl, refused⟩
  rw [split, List.prefix_append_right_inj]
  cases rest <;> simp

end Tree

end SymbolicCalculus
