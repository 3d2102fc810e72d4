import SymbolicCalculus.Syntax.Parser

/-!
The grammar of expressions, with the tree that every sentence of it spells:

    expression := term ('+' term)*
    term       := primary ('*' primary)*
    primary    := Int | Float | Name | '(' expression ')'

Both kinds of chain are one rule, taken at an operator. Nothing here mentions a cursor.
-/

set_option autoImplicit false

namespace SymbolicCalculus

namespace Token

def Kind.isNumeral : Kind → Bool
  | .int | .float => true
  | _ => false

/-- The double nearest to what the numeral spells. -/
def value (token : Token) : Double := (Decimal.ofChars token.lexeme.toList).toDouble

/-- A numeral fits unless its double is infinite. Other tokens always do. -/
def Fits (token : Token) : Prop := token.kind.isNumeral = true → token.value.isFinite = true

theorem fits_of_plain {token : Token} (h : token.kind.isNumeral = false) : token.Fits := by
  intro numeral
  rw [h] at numeral
  contradiction

/-- The tokens that are not white space. -/
def visible (tokens : List Token) : List Token := tokens.filter (!·.isWhitespace)

@[simp] theorem visible_append (first second : List Token) :
    visible (first ++ second) = visible first ++ visible second := List.filter_append ..

@[simp] theorem visible_reverse (tokens : List Token) :
    visible tokens.reverse = (visible tokens).reverse := List.filter_reverse ..

/-- The tokens of a text without its white space. -/
def ofText (text : String) : List Token := visible (scan text)

end Token

def Operator.kind : Operator → Token.Kind
  | add => .add
  | mul => .mul

theorem Token.fits_of_sign {token : Token} {op : Operator} (h : token.kind = op.kind) :
    token.Fits := by
  apply Token.fits_of_plain
  rw [h]
  cases op <;> rfl

/-- The places that tokens take, from the first to the last. -/
def cover (tokens : List Token) : Span :=
  match tokens.head?, tokens.getLast? with
  | some first, some last => first.span.through last.span
  | _, _ => .point 0

theorem cover_append {first second : List Token} (left : first ≠ []) (right : second ≠ []) :
    cover (first ++ second) = (cover first).through (cover second) := by
  obtain ⟨a, first, rfl⟩ := List.exists_cons_of_ne_nil left
  obtain ⟨b, second, rfl⟩ := List.exists_cons_of_ne_nil right
  simp [cover, Span.through, List.getLast?_cons]

/-- The phrases of the grammar. A term is a chain of products, an expression one of sums. -/
inductive Phrase where
  | primary
  | chain (op : Operator)
  deriving DecidableEq, Repr

namespace Phrase

abbrev term : Phrase := chain .mul

abbrev expression : Phrase := chain .add

/-- What stands on both sides of an operator. -/
def operand : Operator → Phrase
  | .add => term
  | .mul => primary

/-- A further operand of a chain, with the sign in front of it. -/
structure Link where
  sign : Token
  tokens : List Token
  operand : Tree

def Link.spelling (link : Link) : List Token := link.sign :: link.tokens

def Link.joinTo (op : Operator) (lhs : Tree) (link : Link) : Tree :=
  lhs.join ⟨op, link.sign.span⟩ link.operand

/-- The tokens spell the phrase, and the tree is what they spell. Chains are folded to the left. -/
inductive Derives : Phrase → List Token → Tree → Prop where
  | numeral {token : Token} (kind : token.kind.isNumeral = true) :
      Derives primary [token] (.literal (.number token.value token.span))
  | name {token : Token} (kind : token.kind = .name) :
      Derives primary [token] (.literal (.symbol token.lexeme token.span))
  | group {opening closing : Token} {tokens : List Token} {inner : Tree}
      (opens : opening.kind = .openParen) (closes : closing.kind = .closeParen)
      (inside : Derives expression tokens inner) :
      Derives primary (opening :: tokens ++ [closing])
        (.paren inner (opening.span.through closing.span))
  | chain {op : Operator} {tokens : List Token} {first : Tree} {links : List Link}
      (head : Derives (operand op) tokens first)
      (signs : ∀ link ∈ links, link.sign.kind = op.kind)
      (operands : ∀ link ∈ links, Derives (operand op) link.tokens link.operand) :
      Derives (chain op) (tokens ++ links.flatMap Link.spelling) (links.foldl (Link.joinTo op) first)

/-- All numerals fit, and some tree is spelled. -/
def Sentence (tokens : List Token) : Prop :=
  (∃ tree, Derives expression tokens tree) ∧ ∀ token ∈ tokens, token.Fits

namespace Derives

variable {phrase : Phrase} {op : Operator} {tokens more : List Token} {tree rhs : Tree}
  {sign : Token}

theorem single (h : Derives (operand op) tokens tree) : Derives (.chain op) tokens tree := by
  have alone := @Derives.chain op tokens tree [] h (by simp) (by simp)
  simpa using alone

/-- A chain goes on to the right. -/
theorem snoc (h : Derives (.chain op) tokens tree) (kind : sign.kind = op.kind)
    (next : Derives (operand op) more rhs) :
    Derives (.chain op) (tokens ++ sign :: more) (tree.join ⟨op, sign.span⟩ rhs) := by
  cases h with
  | @chain _ tokens first links head signs operands =>
    have longer := @Derives.chain op _ first (links ++ [⟨sign, more, rhs⟩]) head
      (by simpa [or_imp, forall_and] using ⟨signs, kind⟩)
      (by simpa [or_imp, forall_and] using ⟨operands, next⟩)
    simpa [Link.spelling, Link.joinTo] using longer

theorem ofTerm (h : Derives term tokens tree) : Derives (.chain op) tokens tree := by
  cases op with
  | mul => exact h
  | add => exact @single .add _ _ h

theorem ofPrimary (h : Derives primary tokens tree) : Derives (.chain op) tokens tree := by
  have term : Derives term tokens tree := @single .mul _ _ h
  exact term.ofTerm

theorem toOperand (h : Derives primary tokens tree) : Derives (operand op) tokens tree := by
  cases op with
  | add => exact h.ofPrimary
  | mul => exact h

theorem toExpression (h : phrase.Derives tokens tree) : expression.Derives tokens tree := by
  cases phrase with
  | primary => exact h.ofPrimary
  | chain op =>
    cases op with
    | add => exact h
    | mul => exact h.ofTerm

/-- Induction along the grammar, a chain growing by one operand at a time. -/
theorem growing {motive : {phrase : Phrase} → {tokens : List Token} → {tree : Tree} →
      Derives phrase tokens tree → Prop}
    (numeral : ∀ {token : Token} (kind : token.kind.isNumeral = true), motive (.numeral kind))
    (name : ∀ {token : Token} (kind : token.kind = .name), motive (.name kind))
    (group : ∀ {opening closing : Token} {tokens : List Token} {inner : Tree}
      (opens : opening.kind = .openParen) (closes : closing.kind = .closeParen)
      (inside : Derives expression tokens inner),
      motive inside → motive (.group opens closes inside))
    (single : ∀ {op : Operator} {tokens : List Token} {tree : Tree}
      (h : Derives (operand op) tokens tree), motive h → motive h.single)
    (snoc : ∀ {op : Operator} {tokens more : List Token} {sign : Token} {tree rhs : Tree}
      (h : Derives (.chain op) tokens tree) (kind : sign.kind = op.kind)
      (next : Derives (operand op) more rhs), motive h → motive next → motive (h.snoc kind next))
    (h : Derives phrase tokens tree) : motive h := by
  induction h with
  | numeral kind => exact numeral kind
  | name kind => exact name kind
  | group opens closes inside ih => exact group opens closes inside ih
  | @chain op tokens first links head signs operands ihHead ihOperands =>
    -- The links are put on from the left, so the derivation is rebuilt along with the motive.
    have grow : ∀ (rest : List Link) (tokens : List Token) (tree : Tree)
        (_ : ∀ link ∈ rest, link.sign.kind = op.kind)
        (operands : ∀ link ∈ rest, Derives (operand op) link.tokens link.operand)
        (_ : ∀ link (member : link ∈ rest), motive (operands link member))
        (derives : Derives (.chain op) tokens tree) (_ : motive derives),
        ∃ whole : Derives (.chain op) (tokens ++ rest.flatMap Link.spelling)
          (rest.foldl (Link.joinTo op) tree), motive whole := by
      intro rest
      induction rest with
      | nil =>
        intro tokens tree _ _ _ derives done
        exact ⟨by simpa using derives, by simpa using done⟩
      | cons link rest ih =>
        intro tokens tree signs operands holds derives done
        have sign := signs link List.mem_cons_self
        have longer := operands link List.mem_cons_self
        obtain ⟨whole, next⟩ := ih (tokens ++ link.spelling) (Link.joinTo op tree link)
          (fun other member => signs other (List.mem_cons_of_mem link member))
          (fun other member => operands other (List.mem_cons_of_mem link member))
          (fun other member => holds other (List.mem_cons_of_mem link member))
          (derives.snoc sign longer) (snoc derives sign longer done (holds link List.mem_cons_self))
        have regroup : tokens ++ (link :: rest).flatMap Link.spelling =
            tokens ++ link.spelling ++ rest.flatMap Link.spelling := by simp
        simp only [regroup, List.foldl_cons]
        exact ⟨whole, next⟩
    obtain ⟨_, done⟩ := grow links tokens first signs operands ihOperands head.single
      (single head ihHead)
    exact done

theorem ne_nil (h : Derives phrase tokens tree) : tokens ≠ [] := by
  induction h using growing with
  | numeral => simp
  | name => simp
  | group => simp
  | single _ ih => exact ih
  | snoc => simp

/-- A tree covers exactly the tokens that it was made from. -/
theorem span_eq (h : Derives phrase tokens tree) : tree.span = cover tokens := by
  induction h using growing with
  | numeral => rfl
  | name => rfl
  | @group opening closing tokens inner =>
    rw [cover_append (by simp) (by simp)]
    rfl
  | single _ ih => exact ih
  | @snoc op tokens more sign tree rhs left _ right ihLeft ihRight =>
    have behind : cover (sign :: more) = sign.span.through (cover more) :=
      @cover_append [sign] more (by simp) right.ne_nil
    rw [cover_append left.ne_nil (by simp), behind, ← ihLeft, ← ihRight]
    rfl

end Derives

end Phrase

end SymbolicCalculus
