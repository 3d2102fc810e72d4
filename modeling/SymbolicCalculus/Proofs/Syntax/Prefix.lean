import SymbolicCalculus.Proofs.Syntax.Operand

/-!
What a scan from left to right knows behind some tokens: whether an operand is due, which
parentheses are open, which tokens can come next, and what is wrong with any other.
-/

set_option autoImplicit false

namespace SymbolicCalculus

/-- An operand has to follow such a token. -/
def Token.Kind.awaitsOperand : Token.Kind → Bool
  | .add | .mul | .openParen => true
  | _ => false

/-- An operand is due behind these tokens. Otherwise one has just ended. -/
def expectsOperand (tokens : List Token) : Bool :=
  tokens.getLast?.all (·.kind.awaitsOperand)

/-- Tokens cut behind each opening parenthesis that they leave unclosed. -/
structure Nest where
  /-- What is behind the innermost of these parentheses. -/
  inner : List Token
  /-- The other parts, the nearest first, each up to its parenthesis. -/
  outer : List (List Token)
  deriving DecidableEq, Repr

namespace Nest

def empty : Nest := ⟨[], []⟩

/-- A closing parenthesis joins what it closes to the part around it, if there is one. -/
def push (nest : Nest) (token : Token) : Nest :=
  match token.kind, nest.outer with
  | .openParen, outer => ⟨[], (nest.inner ++ [token]) :: outer⟩
  | .closeParen, around :: outer => ⟨around ++ nest.inner ++ [token], outer⟩
  | _, outer => ⟨nest.inner ++ [token], outer⟩

def of (tokens : List Token) : Nest := tokens.foldl push empty

/-- The number of unclosed parentheses. -/
def depth (nest : Nest) : Nat := nest.outer.length

/-- The innermost unclosed parenthesis. -/
def opening? (nest : Nest) : Option Token := nest.outer.head?.bind (·.getLast?)

theorem of_append (first second : List Token) :
    of (first ++ second) = second.foldl push (of first) := List.foldl_append ..

theorem of_snoc (tokens : List Token) (last : Token) :
    of (tokens ++ [last]) = (of tokens).push last := of_append ..

theorem push_opening (nest : Nest) {token : Token} (opens : token.kind = .openParen) :
    nest.push token = ⟨[], (nest.inner ++ [token]) :: nest.outer⟩ := by
  simp [push, opens]

theorem push_closing {nest : Nest} {token : Token} {around : List Token}
    {outer : List (List Token)} (closes : token.kind = .closeParen)
    (inside : nest.outer = around :: outer) :
    nest.push token = ⟨around ++ nest.inner ++ [token], outer⟩ := by
  simp [push, closes, inside]

theorem push_plain (nest : Nest) {token : Token} (opens : token.kind ≠ .openParen)
    (closes : token.kind ≠ .closeParen) :
    nest.push token = ⟨nest.inner ++ [token], nest.outer⟩ := by
  unfold push
  split
  · contradiction
  · contradiction
  · rfl

theorem depth_push (nest : Nest) (token : Token) :
    (nest.push token).depth = token.nesting nest.depth := by
  unfold push Token.nesting depth
  split
  · rename_i opens
    simp [opens]
  · rename_i closes inside
    simp [closes, inside]
  · rename_i plain
    cases kind : token.kind <;> cases outer : nest.outer <;> simp_all

/-- The depth is the count of open parentheses that readers keep. -/
theorem depth_of (tokens : List Token) :
    (of tokens).depth = tokens.foldl (fun depth token => token.nesting depth) 0 := by
  have step (nest : Nest) : (tokens.foldl push nest).depth =
      tokens.foldl (fun depth token => token.nesting depth) nest.depth := by
    induction tokens generalizing nest with
    | nil => rfl
    | cons token tokens ih => simp only [List.foldl_cons, ih, depth_push]
  exact step empty

end Nest

/-- The token can come next in a sentence. -/
def Admits (tokens : List Token) (next : Token) : Prop :=
  if expectsOperand tokens then
    next.kind = .name ∨ next.kind = .openParen ∨
      next.kind.isNumeral = true ∧ next.value.isFinite = true
  else next.kind = .add ∨ next.kind = .mul ∨ next.kind = .closeParen ∧ 0 < (Nest.of tokens).depth

/-- Each token can come next behind those before it. -/
def Walks (tokens : List Token) : List Token → Prop
  | [] => True
  | next :: rest => Admits tokens next ∧ Walks (tokens ++ [next]) rest

/-- The tokens cannot go on like this. At the end, nothing must be due or open. -/
def Blocks (tokens : List Token) : Option Token → Prop
  | none => expectsOperand tokens = true ∨ 0 < (Nest.of tokens).depth
  | some next => ¬Admits tokens next

/-- What is wrong behind the tokens with the next one, or with the end. -/
def diagnose (finish : Span) (tokens : List Token) (next : Option Token) : SyntaxError :=
  let nest := Nest.of tokens
  match next with
  | none =>
    if expectsOperand tokens then ⟨[finish], .unexpectedEnd⟩
    else ⟨nest.opening?.toList.map Token.span, .unclosedParenthesis true⟩
  | some next =>
    if expectsOperand tokens then
      match next.kind, tokens.getLast? with
      | .closeParen, some ⟨.openParen, opening, _⟩ =>
        ⟨[opening.through next.span], .emptyParenthesis⟩
      | .closeParen, _ =>
        if nest.depth = 0 then ⟨[next.span], .unclosedParenthesis false⟩
        else .unexpected Parser.operandKinds next
      | .int, _ | .float, _ => ⟨[next.span], .numberTooLarge⟩
      | _, _ => .unexpected Parser.operandKinds next
    else
      match next.kind with
      | .closeParen => ⟨[next.span], .unclosedParenthesis false⟩
      | .symbol =>
        .unexpected (if nest.depth = 0 then [.add, .mul] else [.add, .mul, .closeParen]) next
      | _ => ⟨[cover nest.inner, next.span], .missingOperator⟩

@[simp] theorem expectsOperand_append_singleton (tokens : List Token) (last : Token) :
    expectsOperand (tokens ++ [last]) = last.kind.awaitsOperand := by
  simp [expectsOperand]

section

variable {tokens : List Token} {token : Token} {op : Operator}

theorem expectsOperand_sign (tokens : List Token) (kind : token.kind = op.kind) :
    expectsOperand (tokens ++ [token]) = true := by
  rw [expectsOperand_append_singleton, kind]
  cases op <;> rfl

theorem expectsOperand_opening (tokens : List Token) (opens : token.kind = .openParen) :
    expectsOperand (tokens ++ [token]) = true := by
  rw [expectsOperand_append_singleton, opens]
  rfl

theorem admits_sign (ended : expectsOperand tokens = false) (kind : token.kind = op.kind) :
    Admits tokens token := by
  cases op <;> simp [Admits, ended, kind, Operator.kind]

theorem admits_opening (due : expectsOperand tokens = true) (opens : token.kind = .openParen) :
    Admits tokens token := by
  simp [Admits, due, opens]

theorem admits_numeral_iff (numeral : token.kind.isNumeral = true) :
    Admits tokens token ↔ expectsOperand tokens = true ∧ token.value.isFinite = true := by
  revert numeral
  cases kind : token.kind <;> simp [Admits, kind, Token.Kind.isNumeral]

theorem admits_closing (ended : expectsOperand tokens = false) (closes : token.kind = .closeParen)
    (inside : 0 < (Nest.of tokens).depth) : Admits tokens token := by
  simp [Admits, ended, closes, inside]

theorem not_admits_other (due : expectsOperand tokens = true)
    (other : token.kind.startsPrimary = false) : ¬Admits tokens token := by
  unfold Admits
  rw [if_pos due]
  revert other
  cases token.kind <;> simp [Token.Kind.startsPrimary, Token.Kind.isNumeral]

theorem not_admits_overflow (due : expectsOperand tokens = true)
    (numeral : token.kind.isNumeral = true) (infinite : ¬token.value.isFinite = true) :
    ¬Admits tokens token := by
  unfold Admits
  rw [if_pos due]
  revert numeral
  cases token.kind <;> simp [Token.Kind.isNumeral, infinite]

theorem not_admits_starting (ended : expectsOperand tokens = false)
    (starts : token.kind.startsPrimary = true) : ¬Admits tokens token := by
  revert starts
  cases kind : token.kind <;> simp [Admits, ended, kind, Token.Kind.startsPrimary]

theorem not_admits_symbol (kind : token.kind = .symbol) : ¬Admits tokens token := by
  simp [Admits, kind, Token.Kind.isNumeral]

theorem not_admits_stray (ended : expectsOperand tokens = false)
    (closes : token.kind = .closeParen) (outside : (Nest.of tokens).depth = 0) :
    ¬Admits tokens token := by
  simp [Admits, ended, closes, outside]

end

/-! ## The diagnoses -/

section

variable {finish : Span} {tokens : List Token} {next : Token}

theorem diagnose_end_due (due : expectsOperand tokens = true) :
    diagnose finish tokens none = ⟨[finish], .unexpectedEnd⟩ := by
  simp [diagnose, due]

theorem diagnose_end_open {opening : Token} (ended : expectsOperand tokens = false)
    (innermost : (Nest.of tokens).opening? = some opening) :
    diagnose finish tokens none = ⟨[opening.span], .unclosedParenthesis true⟩ := by
  simp [diagnose, ended, innermost]

theorem diagnose_empty {opening : Token} (opens : opening.kind = .openParen)
    (closes : next.kind = .closeParen) :
    diagnose finish (tokens ++ [opening]) (some next) =
      ⟨[opening.span.through next.span], .emptyParenthesis⟩ := by
  obtain ⟨kind, span, lexeme⟩ := opening
  obtain rfl : kind = .openParen := opens
  simp [diagnose, closes, Token.Kind.awaitsOperand]

theorem diagnose_overflow (due : expectsOperand tokens = true)
    (numeral : next.kind.isNumeral = true) :
    diagnose finish tokens (some next) = ⟨[next.span], .numberTooLarge⟩ := by
  revert numeral
  cases kind : next.kind <;> simp [diagnose, due, kind, Token.Kind.isNumeral]

theorem diagnose_other (due : expectsOperand tokens = true)
    (other : next.kind.startsPrimary = false)
    (occupied : ∀ last ∈ tokens.getLast?, last.kind = .openParen → next.kind ≠ .closeParen) :
    diagnose finish tokens (some next) =
      if next.kind = .closeParen ∧ (Nest.of tokens).depth = 0 then
        ⟨[next.span], .unclosedParenthesis false⟩
      else .unexpected Parser.operandKinds next := by
  simp only [diagnose, due, if_true]
  split
  · rename_i closes last
    exact absurd closes (occupied _ last rfl)
  · rename_i closes _
    simp [closes]
  · rename_i kind
    simp [kind, Token.Kind.startsPrimary] at other
  · rename_i kind
    simp [kind, Token.Kind.startsPrimary] at other
  · rename_i notClosing _ _ _
    rw [if_neg]
    rintro ⟨closes, _⟩
    exact notClosing closes

theorem diagnose_missing (ended : expectsOperand tokens = false)
    (starts : next.kind.startsPrimary = true) :
    diagnose finish tokens (some next) =
      ⟨[cover (Nest.of tokens).inner, next.span], .missingOperator⟩ := by
  revert starts
  cases kind : next.kind <;> simp [diagnose, ended, kind, Token.Kind.startsPrimary]

theorem diagnose_closing (ended : expectsOperand tokens = false)
    (closes : next.kind = .closeParen) :
    diagnose finish tokens (some next) = ⟨[next.span], .unclosedParenthesis false⟩ := by
  simp [diagnose, ended, closes]

theorem diagnose_symbol (ended : expectsOperand tokens = false) (kind : next.kind = .symbol) :
    diagnose finish tokens (some next) =
      .unexpected (if (Nest.of tokens).depth = 0 then [.add, .mul] else [.add, .mul, .closeParen])
        next := by
  simp [diagnose, ended, kind]

end

/-- The errors that a token is refused with. -/
inductive RefusedAt (tokens : List Token) (next : Token) : SyntaxError → Prop where
  | emptyPair {front : List Token} {opening : Token} (pair : tokens = front ++ [opening]) :
      RefusedAt tokens next ⟨[opening.span.through next.span], .emptyParenthesis⟩
  | missing (ended : expectsOperand tokens = false) :
      RefusedAt tokens next ⟨[cover (Nest.of tokens).inner, next.span], .missingOperator⟩
  | overflow : RefusedAt tokens next ⟨[next.span], .numberTooLarge⟩
  | stray : RefusedAt tokens next ⟨[next.span], .unclosedParenthesis false⟩
  | unexpected (expected : List Token.Kind) : RefusedAt tokens next (.unexpected expected next)

theorem refusedAt_diagnose (finish : Span) (tokens : List Token) (next : Token) :
    RefusedAt tokens next (diagnose finish tokens (some next)) := by
  cases due : expectsOperand tokens with
  | true =>
    simp only [diagnose, due, if_true]
    split
    · rename_i last
      obtain ⟨front, pair⟩ := List.getLast?_eq_some_iff.mp last
      exact .emptyPair pair
    · split
      · exact .stray
      · exact .unexpected _
    · exact .overflow
    · exact .overflow
    · exact .unexpected _
  | false =>
    simp only [diagnose, due, Bool.false_eq_true, if_false]
    split
    · exact .stray
    · exact .unexpected _
    · exact .missing due

/-- What a token can be refused for. The other faults are found at the end of a text, or in trees
that were built by hand. -/
def Fault.isOfToken : Fault → Bool
  | .unexpectedEnd | .unclosedParenthesis true | .invalidLiteral _ => false
  | .unexpectedToken _ _ | .missingOperator | .numberTooLarge | .unclosedParenthesis false
  | .emptyParenthesis => true

theorem RefusedAt.isOfToken {tokens : List Token} {next : Token} {error : SyntaxError}
    (h : RefusedAt tokens next error) : error.fault.isOfToken = true := by
  cases h <;> rfl

theorem isOfToken_diagnose (finish : Span) (tokens : List Token) (next : Token) :
    (diagnose finish tokens (some next)).fault.isOfToken = true :=
  (refusedAt_diagnose finish tokens next).isOfToken

theorem fault_diagnose_end (finish : Span) (tokens : List Token) :
    (diagnose finish tokens none).fault =
      if expectsOperand tokens then .unexpectedEnd else .unclosedParenthesis true := by
  simp only [diagnose]
  split <;> rfl

theorem fault_diagnose_eq_unexpectedEnd {finish : Span} {tokens : List Token}
    {next : Option Token} :
    (diagnose finish tokens next).fault = .unexpectedEnd ↔
      next = none ∧ expectsOperand tokens = true := by
  cases next with
  | none => simp [fault_diagnose_end]
  | some next =>
    have found := isOfToken_diagnose finish tokens next
    constructor
    · intro ended
      rw [ended] at found
      cases found
    · rintro ⟨⟨⟩, _⟩

theorem fault_diagnose_ne_invalidLiteral (finish : Span) (tokens : List Token)
    (next : Option Token) (reason : Refusal) :
    (diagnose finish tokens next).fault ≠ .invalidLiteral reason := by
  intro invalid
  cases next with
  | none =>
    rw [fault_diagnose_end] at invalid
    split at invalid <;> cases invalid
  | some next =>
    have found := isOfToken_diagnose finish tokens next
    rw [invalid] at found
    cases found

/-- A token that is not expected is the next one, and its place is told. -/
theorem exists_of_diagnose_eq_unexpected {finish span : Span} {tokens : List Token}
    {next : Option Token} {expected : List Token.Kind} {found : Token.Kind}
    (h : diagnose finish tokens next = ⟨[span], .unexpectedToken expected found⟩) :
    ∃ token, next = some token ∧ token.span = span ∧ token.kind = found := by
  cases next with
  | none =>
    have fault := fault_diagnose_end finish tokens
    rw [h] at fault
    split at fault <;> cases fault
  | some next =>
    have refused := refusedAt_diagnose finish tokens next
    rw [h] at refused
    cases refused with
    | unexpected => exact ⟨next, rfl, rfl, rfl⟩

/-! ## Phrases of the grammar -/

theorem walks_append {tokens first second : List Token} :
    Walks tokens (first ++ second) ↔ Walks tokens first ∧ Walks (tokens ++ first) second := by
  induction first generalizing tokens with
  | nil => simp [Walks]
  | cons next first ih => simp [Walks, ih, and_assoc]

namespace Phrase.Derives

variable {phrase : Phrase} {tokens : List Token} {tree : Tree}

/-- A phrase closes all the parentheses that it opens. -/
theorem foldl_push (h : phrase.Derives tokens tree) (nest : Nest) :
    tokens.foldl Nest.push nest = ⟨nest.inner ++ tokens, nest.outer⟩ := by
  induction h using growing generalizing nest with
  | @numeral token kind =>
    refine nest.push_plain ?_ ?_ <;> intro same <;> simp [same, Token.Kind.isNumeral] at kind
  | @name token kind => refine nest.push_plain ?_ ?_ <;> simp [kind]
  | @group opening closing tokens inner opens closes inside ih =>
    have closed := @Nest.push_closing ⟨tokens, (nest.inner ++ [opening]) :: nest.outer⟩ _ _ _
      closes rfl
    simp [nest.push_opening opens, ih, closed]
  | single _ ih => exact ih nest
  | @snoc op tokens more sign tree rhs _ kind _ ihLeft ihRight =>
    have plain (nest : Nest) : nest.push sign = ⟨nest.inner ++ [sign], nest.outer⟩ := by
      refine nest.push_plain ?_ ?_ <;> cases op <;> simp [kind, Operator.kind]
    simp [ihLeft, ihRight, plain]

theorem nest_append (h : phrase.Derives tokens tree) (before : List Token) :
    Nest.of (before ++ tokens) =
      ⟨(Nest.of before).inner ++ tokens, (Nest.of before).outer⟩ := by
  rw [Nest.of_append, h.foldl_push]

theorem exists_last (h : phrase.Derives tokens tree) :
    ∃ front last, tokens = front ++ [last] ∧ last.kind.awaitsOperand = false := by
  induction h using growing with
  | @numeral token kind =>
    refine ⟨[], token, rfl, ?_⟩
    revert kind
    cases token.kind <;> simp [Token.Kind.isNumeral, Token.Kind.awaitsOperand]
  | @name token kind => exact ⟨[], token, rfl, by simp [kind, Token.Kind.awaitsOperand]⟩
  | @group opening closing tokens inner _ closes =>
    exact ⟨opening :: tokens, closing, rfl, by simp [closes, Token.Kind.awaitsOperand]⟩
  | single _ ih => exact ih
  | @snoc op tokens more sign tree rhs _ _ _ _ ihRight =>
    obtain ⟨front, last, rfl, ended⟩ := ihRight
    exact ⟨tokens ++ sign :: front, last, by simp, ended⟩

theorem not_expectsOperand (h : phrase.Derives tokens tree) (before : List Token) :
    expectsOperand (before ++ tokens) = false := by
  obtain ⟨front, last, rfl, ended⟩ := h.exists_last
  rw [← List.append_assoc, expectsOperand_append_singleton, ended]

/-- A scan gets through a phrase wherever an operand is due. -/
theorem walks (h : phrase.Derives tokens tree) (fit : ∀ token ∈ tokens, token.Fits)
    {before : List Token} (due : expectsOperand before = true) : Walks before tokens := by
  induction h using growing generalizing before with
  | @numeral token kind =>
    have finite := fit token (by simp) kind
    simp [Walks, Admits, due, kind, finite]
  | @name token kind => simp [Walks, Admits, due, kind]
  | @group opening closing tokens inner opens closes inside ih =>
    have entered := expectsOperand_opening before opens
    have through := ih (fun token member => fit token (by simp [member])) entered
    have ended := inside.not_expectsOperand (before ++ [opening])
    -- The inside leaves the parentheses as it found them, so the one that is closed is open.
    have nesting := inside.nest_append (before ++ [opening])
    rw [Nest.of_snoc, Nest.push_opening _ opens] at nesting
    have last := admits_closing ended closes (by rw [nesting]; exact Nat.succ_pos _)
    exact ⟨admits_opening due opens, walks_append.mpr ⟨through, last, trivial⟩⟩
  | single _ ih => exact ih fit due
  | @snoc op tokens more sign tree rhs left kind right ihLeft ihRight =>
    have first := ihLeft (fun token member => fit token (by simp [member])) due
    have second := ihRight (fun token member => fit token (by simp [member]))
      (expectsOperand_sign (before ++ tokens) kind)
    exact walks_append.mpr ⟨first, admits_sign (left.not_expectsOperand before) kind, second⟩

end Phrase.Derives

end SymbolicCalculus
