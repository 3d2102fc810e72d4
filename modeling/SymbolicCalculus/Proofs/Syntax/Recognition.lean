import SymbolicCalculus.Proofs.Syntax.Climbing
import SymbolicCalculus.Proofs.Syntax.Prefix

/-!
What the readers accept and what they refuse. A read that succeeds has passed tokens that spell its
phrase. One that fails has come as far as a scan from left to right can, and its error is the
diagnosis of the next token there.
-/

set_option autoImplicit false

namespace SymbolicCalculus

/-- One thing holds of a success and another of a failure. -/
def Outcome.Meets {start : Cursor} {α : Type} (good : α → Cursor → Prop) (bad : SyntaxError → Prop) :
    Outcome start α → Prop
  | success value stop _ => good value stop
  | failure error _ => bad error

/-- From one cursor to another, exactly the tokens of a phrase are read, and its numerals fit. -/
structure Phrase.Read (phrase : Phrase) (c : Cursor) (tree : Tree) (stop : Cursor)
    (tokens : List Token) : Prop where
  passes : c.Passes tokens stop
  derives : phrase.Derives tokens tree
  fits : ∀ token ∈ tokens, token.Fits

namespace Phrase.Read

variable {phrase : Phrase} {c stop : Cursor} {tree : Tree} {tokens : List Token}

theorem ended (h : phrase.Read c tree stop tokens) : expectsOperand stop.past = false := by
  rw [h.passes.past]
  exact h.derives.not_expectsOperand c.past

theorem walks (h : phrase.Read c tree stop tokens) (due : expectsOperand c.past = true) :
    Walks c.past tokens := h.derives.walks h.fits due

theorem nest (h : phrase.Read c tree stop tokens) :
    Nest.of stop.past = ⟨(Nest.of c.past).inner ++ tokens, (Nest.of c.past).outer⟩ := by
  rw [h.passes.past, h.derives.nest_append]

end Phrase.Read

/-- The error is what a scan finds where it first cannot go on. -/
def Diagnosed (c : Cursor) (error : SyntaxError) : Prop :=
  ∃ read rest, c.future = read ++ rest ∧ Walks c.past read ∧
    Blocks (c.past ++ read) rest.head? ∧ error = diagnose c.endSpan (c.past ++ read) rest.head?

namespace Diagnosed

variable {c d : Cursor} {error : SyntaxError} {read : List Token}

theorem atEnd (ahead : c.future = []) (blocks : Blocks c.past none)
    (same : error = diagnose c.endSpan c.past none) : Diagnosed c error :=
  ⟨[], [], ahead, trivial, by simpa using blocks, by simpa using same⟩

theorem atNext {next : Token} {rest : List Token} (ahead : c.future = next :: rest)
    (blocks : ¬Admits c.past next) (same : error = diagnose c.endSpan c.past (some next)) :
    Diagnosed c error :=
  ⟨[], next :: rest, ahead, trivial, by simpa [Blocks] using blocks, by simpa using same⟩

theorem after (passes : c.Passes read d) (walks : Walks c.past read) (h : Diagnosed d error) :
    Diagnosed c error := by
  obtain ⟨more, rest, ahead, through, blocks, same⟩ := h
  rw [passes.past, List.append_assoc] at blocks same
  rw [passes.past] at through
  refine ⟨read ++ more, rest, ?_, walks_append.mpr ⟨walks, through⟩, blocks, ?_⟩
  · rw [passes.future, ahead, List.append_assoc]
  · rw [same, passes.endSpan]

end Diagnosed

namespace Parser

/-- An operand is due, and not in an empty pair of parentheses. -/
structure Due (c : Cursor) : Prop where
  expects : expectsOperand c.past = true
  occupied : ∀ last ∈ c.past.getLast?, last.kind = .openParen → Occupied c

theorem exists_sign {c : Cursor} {op : Operator} (h : nextOperator? c = some op) :
    ∃ sign rest, c.future = sign :: rest ∧ sign.kind = op.kind := by
  rw [nextOperator?_eq] at h
  cases ahead : c.future with
  | nil => simp [ahead] at h
  | cons sign rest =>
    simp only [ahead, List.head?_cons, Option.bind_some] at h
    exact ⟨sign, rest, rfl, operator?_eq_some.mp h⟩

/-- The operators that a climb takes make a chain of this kind. -/
def chained : Precedence → Operator
  | .factor => .mul
  | _ => .add

/-- One operand has been joined to `lhs`, the one that `sign` calls for. -/
structure Extends (op : Operator) (lhs : Tree) (c : Cursor) (tree : Tree) (stop : Cursor)
    (sign : Token) (read : List Token) (rhs : Tree) : Prop where
  kind : sign.kind = op.kind
  passes : c.Passes (sign :: read) stop
  derives : (Phrase.operand op).Derives read rhs
  fits : ∀ token ∈ sign :: read, token.Fits
  joined : tree = lhs.join ⟨op, sign.span⟩ rhs
  /-- The operand of a sum has taken all products behind it. -/
  ended : op = .add → nextOperator? stop ≠ some .mul

/-- A chain that ends in `lhs` has grown into one that ends in `tree`. Only a term can go on with a
product. -/
structure Grows (op : Operator) (lhs : Tree) (c : Cursor) (tree : Tree) (stop : Cursor)
    (read : List Token) : Prop where
  passes : c.Passes read stop
  fits : ∀ token ∈ read, token.Fits
  derives : ∀ before, (Phrase.chain op).Derives before lhs →
    (nextOperator? c = some .mul → Phrase.term.Derives before lhs) →
    (Phrase.chain op).Derives (before ++ read) tree

/-- Joining an operand to a chain gives a chain, which is a term again if a product can follow. -/
theorem Extends.lengthen {op : Operator} {lhs tree rhs : Tree} {c stop : Cursor} {sign : Token}
    {read before : List Token} {least : Precedence} (h : Extends op lhs c tree stop sign read rhs)
    (next : nextOperator? c = some op) (tight : least ≤ op.precedence)
    (derives : (Phrase.chain (chained least)).Derives before lhs)
    (isTerm : nextOperator? c = some .mul → Phrase.term.Derives before lhs) :
    (Phrase.chain (chained least)).Derives (before ++ sign :: read) tree ∧
      (nextOperator? stop = some .mul → Phrase.term.Derives (before ++ sign :: read) tree) := by
  rw [h.joined]
  cases op with
  | mul =>
    have term := (isTerm next).snoc h.kind h.derives
    exact ⟨term.ofTerm, fun _ => term⟩
  | add =>
    have sums : chained least = .add := by
      cases least with
      | any | term => rfl
      | factor => exact absurd tight (by decide)
    rw [sums] at derives ⊢
    exact ⟨derives.snoc h.kind h.derives, fun product => absurd product (h.ended rfl)⟩

/-- Nothing that comes next could belong to an expression. -/
def Concluded (c : Cursor) : Prop :=
  ∀ next ∈ c.future.head?, next.kind = .closeParen ∨ next.kind = .symbol

theorem starts_cases {kind : Token.Kind} (starts : kind.startsPrimary = true) :
    kind.isNumeral = true ∨ kind = .name ∨ kind = .openParen := by
  revert starts
  cases kind <;> simp [Token.Kind.startsPrimary, Token.Kind.isNumeral]

theorem exists_closing {c : Cursor} (empty : ¬Occupied c) :
    ∃ next rest, c.future = next :: rest ∧ next.kind = .closeParen := by
  cases ahead : c.future with
  | nil => exact absurd (by simp [Occupied, ahead]) empty
  | cons next rest =>
    refine ⟨next, rest, rfl, Decidable.byContradiction fun other => empty ?_⟩
    simpa [Occupied, ahead] using other

/-- What follows a whole chain and starts no operand is foreign to expressions. -/
theorem concluded_of_ended {c : Cursor} (loose : nextOperator? c = none)
    (apart : ∀ next ∈ c.future.head?, next.kind.startsPrimary = false) : Concluded c := by
  intro next member
  have other := apart next member
  have dark := c.kind_of_mem_future (List.mem_of_mem_head? member)
  rw [nextOperator?_eq, Option.mem_def.mp member, Option.bind_some] at loose
  revert other dark loose
  unfold operator?
  cases next.kind <;> simp [Token.Kind.startsPrimary]

-- The readers call one another, so what they meet is proved of all at once. The measure is theirs.
mutual

theorem primary_meets (c : Cursor) :
    (primary c).Meets (fun tree stop => ∃ read, Phrase.primary.Read c tree stop read)
      (fun error => Due c → Diagnosed c error) := by
  cases ahead : c.future with
  | nil =>
    rw [primary_of_end ahead]
    intro due
    exact .atEnd ahead (.inl due.expects) (diagnose_end_due due.expects).symm
  | cons next rest =>
    cases starts : next.kind.startsPrimary with
    | false =>
      rw [primary_of_other ahead starts]
      intro due
      refine .atNext ahead (not_admits_other due.expects starts) ?_
      -- The reader counts the open parentheses, and the scan has them on a stack.
      rw [diagnose_other due.expects starts, Nest.depth_of, c.openParens_eq]
      intro last member opens
      exact due.occupied last member opens next (by simp [ahead])
    | true =>
      rcases starts_cases starts with numeral | name | opens
      · by_cases finite : next.value.isFinite = true
        · obtain ⟨d, _, passes, read⟩ := primary_of_numeral ahead numeral fun _ => finite
          rw [read]
          exact ⟨[next], passes, .numeral numeral, by simpa [Token.Fits] using fun _ => finite⟩
        · rw [primary_of_overflow ahead numeral finite]
          intro due
          exact .atNext ahead (not_admits_overflow due.expects numeral finite)
            (diagnose_overflow due.expects numeral).symm
      · obtain ⟨d, _, passes, read⟩ := primary_of_name ahead name
        rw [read]
        exact ⟨[next], passes, .name name, by simp [Token.Fits, name, Token.Kind.isNumeral]⟩
      · have group := paren_meets c ahead opens
        rw [primary_of_opening ahead opens]
        cases read : paren c with
        | success tree stop advanced =>
          rw [read] at group
          exact group
        | failure error stop =>
          rw [read] at group
          exact fun due => group due.expects
termination_by 3 * c.remaining + 1

theorem paren_meets (c : Cursor) {opening : Token} {rest : List Token}
    (ahead : c.future = opening :: rest) (opens : opening.kind = .openParen) :
    (paren c).Meets (fun tree stop => ∃ read, Phrase.primary.Read c tree stop read)
      (fun error => expectsOperand c.past = true → Diagnosed c error) := by
  obtain ⟨inside, entered, enter, enters⟩ := token_of_kind ahead opens
  have enterWalk (due : expectsOperand c.past = true) : Walks c.past [opening] :=
    ⟨admits_opening due opens, trivial⟩
  have insideExpects : expectsOperand inside.past = true := by
    rw [enters.past]
    exact expectsOperand_opening c.past opens
  have insideNest :
      Nest.of inside.past = ⟨[], ((Nest.of c.past).inner ++ [opening]) :: (Nest.of c.past).outer⟩ := by
    rw [enters.past, Nest.of_snoc, Nest.push_opening _ opens]
  by_cases occupied : Occupied inside
  · have body := expression_meets inside
    cases reads : expression inside with
    | failure error stop =>
      rw [paren_of_failure enter occupied reads]
      rw [reads] at body
      intro due
      exact (body ⟨insideExpects, fun _ _ _ => occupied⟩ (by rw [insideNest])).after enters
        (enterWalk due)
    | success inner behind passed =>
      rw [reads] at body
      obtain ⟨tokens, read, concluded⟩ := body
      have behindNest : Nest.of behind.past =
          ⟨tokens, ((Nest.of c.past).inner ++ [opening]) :: (Nest.of c.past).outer⟩ := by
        simp [read.nest, insideNest]
      have through (due : expectsOperand c.past = true) : Walks c.past ([opening] ++ tokens) := by
        refine walks_append.mpr ⟨enterWalk due, ?_⟩
        rw [← enters.past]
        exact read.walks insideExpects
      -- The body is whole, so only the end, its parenthesis or a foreign symbol can be behind it.
      cases closing : behind.future with
      | nil =>
        rw [paren_of_unclosed enter occupied reads closing]
        intro due
        refine Diagnosed.after (enters.trans read.passes) (through due) ?_
        refine .atEnd closing (.inr (by rw [behindNest]; exact Nat.succ_pos _)) ?_
        rw [diagnose_end_open read.ended]
        simp [behindNest, Nest.opening?]
      | cons next rest =>
        by_cases closes : next.kind = .closeParen
        · obtain ⟨d, _, leaves, closed⟩ := paren_of_closed enter occupied reads closing closes
          rw [closed]
          refine ⟨opening :: tokens ++ [next], ?_, .group opens closes read.derives, ?_⟩
          · exact (enters.trans read.passes).trans leaves
          · have fits := read.fits
            simpa [or_imp, forall_and, Token.Fits, opens, closes, Token.Kind.isNumeral] using fits
        · have symbol : next.kind = .symbol :=
            (concluded next (by simp [closing])).resolve_left closes
          rw [paren_of_other enter occupied reads closing closes]
          intro due
          refine Diagnosed.after (enters.trans read.passes) (through due) ?_
          refine .atNext closing (not_admits_symbol symbol) ?_
          rw [diagnose_symbol read.ended symbol, behindNest, if_neg (by simp [Nest.depth])]
  · obtain ⟨next, rest, closing, closes⟩ := exists_closing occupied
    rw [paren_of_empty enter closing closes]
    intro due
    refine Diagnosed.after enters (enterWalk due) (.atNext closing ?_ ?_)
    · refine not_admits_other insideExpects ?_
      rw [closes]
      rfl
    · rw [enters.past, diagnose_empty opens closes]
termination_by 3 * c.remaining

theorem expression_meets (c : Cursor) :
    (expression c).Meets
      (fun tree stop => ∃ read, Phrase.expression.Read c tree stop read ∧ Concluded stop)
      (fun error => Due c → (Nest.of c.past).inner = [] → Diagnosed c error) := by
  have first := primary_meets c
  cases reads : primary c with
  | failure error stop =>
    rw [expression_of_failure (chain_of_failure .any reads)]
    rw [reads] at first
    exact fun due _ => first due
  | success operand stop further =>
    rw [reads] at first
    obtain ⟨tokens, read⟩ := first
    have rest := climb_meets c operand stop further .any
    cases climbs : climb c operand stop further .any with
    | failure error last =>
      rw [expression_of_failure ((chain_eq .any reads).trans climbs)]
      rw [climbs] at rest
      intro due _
      exact (rest read.ended).after read.passes (read.walks due.expects)
    | success tree last furthest =>
      rw [climbs] at rest
      obtain ⟨more, grows⟩ := rest
      have whole : Phrase.expression.Read c tree last (tokens ++ more) :=
        ⟨read.passes.trans grows.passes,
          grows.derives tokens read.derives.ofPrimary fun _ => read.derives.ofPrimary,
          List.forall_mem_append.mpr ⟨read.fits, grows.fits⟩⟩
      have loose : nextOperator? last = none := binds_any_iff.mp (nextOperator?_of_climb climbs)
      rw [expression_of_success ((chain_eq .any reads).trans climbs)]
      cases ahead : last.future.head? with
      | none => exact ⟨_, whole, by simp [Concluded, ahead]⟩
      | some next =>
        simp only
        split
        · -- An operand right behind the chain. The chain is all that its parenthesis holds so far.
          rename_i starts
          intro due fresh
          obtain ⟨_, ahead⟩ := List.head?_eq_some_iff.mp ahead
          refine Diagnosed.after whole.passes (whole.walks due.expects) ?_
          refine .atNext ahead (not_admits_starting whole.ended starts) ?_
          rw [diagnose_missing whole.ended starts, whole.nest, fresh, whole.derives.span_eq]
          rfl
        · rename_i apart
          refine ⟨_, whole, concluded_of_ended loose ?_⟩
          simpa [ahead] using apart
termination_by 3 * c.remaining + 2

theorem extend_meets (lhs : Tree) (c : Cursor) {op : Operator} (next : nextOperator? c = some op) :
    (extend lhs c).Meets
      (fun tree stop => ∃ sign read rhs, Extends op lhs c tree stop sign read rhs)
      (fun error => expectsOperand c.past = false → Diagnosed c error) := by
  obtain ⟨sign, rest, ahead, kind⟩ := exists_sign next
  obtain ⟨behind, passed, reads, signs⟩ := connective_of_operator ahead (operator?_eq_some.mpr kind)
  have signFits : sign.Fits := Token.fits_of_sign kind
  have due : Due behind := by
    refine ⟨by rw [signs.past]; exact expectsOperand_sign c.past kind, ?_⟩
    intro last member opens
    rw [signs.past, List.getLast?_concat] at member
    obtain rfl : sign = last := Option.some.inj member
    cases op <;> simp [kind, Operator.kind] at opens
  have first := primary_meets behind
  cases operand : primary behind with
  | failure error stop =>
    rw [extend_of_failure reads operand]
    rw [operand] at first
    intro ended
    exact (first due).after signs ⟨admits_sign ended kind, trivial⟩
  | success tree stop further =>
    rw [operand] at first
    obtain ⟨tokens, read⟩ := first
    have fits : ∀ token ∈ sign :: tokens, token.Fits := by
      simpa using ⟨signFits, read.fits⟩
    cases op with
    | mul =>
      rw [extend_mul reads operand]
      exact ⟨sign, tokens, tree, kind, signs.trans read.passes, read.derives, fits, rfl, by simp⟩
    | add =>
      -- The operand of a sum is a whole term, which a climb of its own reads.
      have products := climb_meets c tree stop (Nat.lt_trans further passed) .factor
      rw [extend_add reads operand]
      cases climbs : climb c tree stop (Nat.lt_trans further passed) .factor with
      | failure error last =>
        rw [climbs] at products
        intro ended
        refine (products read.ended).after (signs.trans read.passes) ⟨admits_sign ended kind, ?_⟩
        rw [← signs.past]
        exact read.walks due.expects
      | success rhs last furthest =>
        rw [climbs] at products
        obtain ⟨more, grows⟩ := products
        have term := grows.derives tokens read.derives.ofPrimary fun _ => read.derives.ofPrimary
        refine ⟨sign, tokens ++ more, rhs, kind, ?_, term, ?_, rfl, ?_⟩
        · exact (signs.trans read.passes).trans grows.passes
        · rw [← List.cons_append]
          exact List.forall_mem_append.mpr ⟨fits, grows.fits⟩
        · exact fun _ same => nextOperator?_of_climb climbs (binds_factor_iff.mpr same)
termination_by 3 * c.remaining

theorem climb_meets (start : Cursor) (lhs : Tree) (c : Cursor)
    (advanced : c.remaining < start.remaining) (least : Precedence) :
    (climb start lhs c advanced least).Meets
      (fun tree stop => ∃ read, Grows (chained least) lhs c tree stop read)
      (fun error => expectsOperand c.past = false → Diagnosed c error) := by
  by_cases binds : (nextOperator? c).any (least ≤ ·.precedence) = true
  · obtain ⟨op, next, tight⟩ := (Option.any_eq_true ..).mp binds
    have step := extend_meets lhs c next
    cases reads : extend lhs c with
    | failure error stop =>
      rw [climb_of_failure binds reads]
      rw [reads] at step
      exact step
    | success longer stop further =>
      rw [reads] at step
      obtain ⟨sign, read, rhs, extending⟩ := step
      have rest := climb_meets start longer stop (Nat.lt_trans further advanced) least
      rw [climb_of_success binds reads]
      cases climbs : climb start longer stop (Nat.lt_trans further advanced) least with
      | failure error last =>
        rw [climbs] at rest
        intro ended
        have atOperand : expectsOperand stop.past = false := by
          rw [extending.passes.past, List.append_cons]
          exact extending.derives.not_expectsOperand (c.past ++ [sign])
        refine (rest atOperand).after extending.passes ⟨admits_sign ended extending.kind, ?_⟩
        exact extending.derives.walks (fun token member => extending.fits token (.tail sign member))
          (expectsOperand_sign c.past extending.kind)
      | success tree last furthest =>
        rw [climbs] at rest
        obtain ⟨more, grows⟩ := rest
        refine ⟨sign :: read ++ more, extending.passes.trans grows.passes, ?_, ?_⟩
        · exact List.forall_mem_append.mpr ⟨extending.fits, grows.fits⟩
        · intro before derives isTerm
          obtain ⟨longer, isTerm⟩ := extending.lengthen next (of_decide_eq_true tight) derives isTerm
          rw [← List.append_assoc]
          exact grows.derives _ longer isTerm
  · rw [climb_of_none binds]
    exact ⟨[], .refl c, by simp, fun before derives _ => by simpa using derives⟩
termination_by 3 * c.remaining + 1

end

end Parser

end SymbolicCalculus
