import SymbolicCalculus.Proofs.Syntax.Recognition

/-!
What a climb takes from any place and on top of any operand: the longest run of operators that bind
tightly enough, each with the operand behind it. The run is grouped as a sum of products, both folded
to the left.
-/

set_option autoImplicit false

namespace SymbolicCalculus

theorem Precedence.le_factor (least : Precedence) : least ≤ .factor := by
  cases least <;> decide

namespace Parser

/-! ## Runs and their grouping -/

/-- An operator and the operand behind it. -/
@[ext]
structure Joint where
  connective : Connective
  operand : Tree

def Joint.joinTo (lhs : Tree) (joint : Joint) : Tree := lhs.join joint.connective joint.operand

/-- The factors that a run starts with, and then each further term of a sum with its factors. -/
def terms : List Joint → List Joint × List (Joint × List Joint)
  | [] => ([], [])
  | joint :: run =>
    match joint.connective.operator with
    | .mul => (joint :: (terms run).1, (terms run).2)
    | .add => ([], (joint, (terms run).1) :: (terms run).2)

def product (first : Tree) (factors : List Joint) : Tree := factors.foldl Joint.joinTo first

def addTerm (sum : Tree) (term : Joint × List Joint) : Tree :=
  sum.join term.1.connective (product term.1.operand term.2)

/-- The sum of products that a run makes on top of its first operand. -/
def grouped (lhs : Tree) (run : List Joint) : Tree :=
  (terms run).2.foldl addTerm (product lhs (terms run).1)

section

variable {run factors : List Joint} {lhs operand : Tree} {span : Span}

theorem grouped_mul :
    grouped lhs (⟨⟨.mul, span⟩, operand⟩ :: run) = grouped (lhs.join ⟨.mul, span⟩ operand) run := rfl

theorem terms_append (products : ∀ joint ∈ factors, joint.connective.operator = .mul) :
    terms (factors ++ run) = (factors ++ (terms run).1, (terms run).2) := by
  induction factors with
  | nil => rfl
  | cons joint factors ih =>
    have here := products joint List.mem_cons_self
    have behind := ih fun other member => products other (List.mem_cons_of_mem joint member)
    simp only [List.cons_append, terms, here, behind]

theorem terms_of_head (sum : ∀ joint ∈ run.head?, joint.connective.operator ≠ .mul) :
    (terms run).1 = [] := by
  cases run with
  | nil => rfl
  | cons joint run =>
    have here := sum joint rfl
    cases kind : joint.connective.operator with
    | add => simp only [terms, kind]
    | mul => exact absurd kind here

theorem grouped_of_products (products : ∀ joint ∈ factors, joint.connective.operator = .mul) :
    grouped lhs factors = product lhs factors := by
  have whole := @terms_append [] factors products
  simp only [List.append_nil, terms] at whole
  simp [grouped, whole]

/-- A term of a sum ends where the next operator is not one of a product. -/
theorem grouped_add (products : ∀ joint ∈ factors, joint.connective.operator = .mul)
    (sum : ∀ joint ∈ run.head?, joint.connective.operator ≠ .mul) :
    grouped lhs (⟨⟨.add, span⟩, operand⟩ :: (factors ++ run)) =
      grouped (lhs.join ⟨.add, span⟩ (grouped operand factors)) run := by
  rw [grouped_of_products products]
  simp only [grouped, terms, terms_append products, terms_of_head sum, List.append_nil,
    List.foldl_cons, addTerm]
  rfl

end

/-- Operators that bind tightly enough and operands are read by turns. -/
inductive Run (least : Precedence) : Cursor → List Joint → Cursor → Prop where
  | nil (c : Cursor) : Run least c [] c
  | cons {c behind stop last : Cursor} {joint : Joint} {run : List Joint}
      {passed : behind.remaining < c.remaining} {further : stop.remaining < behind.remaining}
      (sign : connective c = .success joint.connective behind passed)
      (tight : least ≤ joint.connective.operator.precedence)
      (operand : primary behind = .success joint.operand stop further)
      (rest : Run least stop run last) : Run least c (joint :: run) last

/-- Nothing can be read that would make a run longer. -/
def Stuck (least : Precedence) (c : Cursor) : Prop := ∀ joint stop, ¬Run least c [joint] stop

/-- What comes next is no operator that binds tightly enough. -/
def Loose (least : Precedence) (c : Cursor) : Prop :=
  ∀ op ∈ nextOperator? c, ¬least ≤ op.precedence

/-- An operator that binds tightly enough comes next, and there is no operand at `stop` behind it. -/
def Breaks (least : Precedence) (c : Cursor) (error : SyntaxError) (stop : Cursor) : Prop :=
  ∃ sign passed place, connective c = .success sign stop passed ∧
    least ≤ sign.operator.precedence ∧ primary stop = .failure error place

/-- No run from the same place goes on for longer, or differently. -/
structure Longest (least : Precedence) (c : Cursor) (run : List Joint) (last : Cursor) : Prop where
  reads : Run least c run last
  longest : ∀ other stop, Run least c other stop → other <+: run

/-- At the end of a run, a climb has either come to nothing that it could take, with the grouping of
the run in hand, or to an operator with no operand behind it. -/
def Settles (least : Precedence) (whole : Tree) (last : Cursor) {start : Cursor} :
    Outcome start Tree → Prop
  | .success tree stop _ => stop = last ∧ Loose least last ∧ tree = whole
  | .failure error stop => Breaks least last error stop

/-! ## Where runs end -/

section

variable {least tighter : Precedence} {c stop last : Cursor} {run other : List Joint}
  {error : SyntaxError}

theorem loose_iff : Loose least c ↔ ¬(nextOperator? c).any (least ≤ ·.precedence) = true := by
  unfold Loose
  cases nextOperator? c <;> simp

theorem loose_factor_iff : Loose .factor c ↔ nextOperator? c ≠ some .mul :=
  loose_iff.trans (not_congr binds_factor_iff)

theorem nextOperator?_of_connective {sign : Connective} {behind : Cursor}
    {passed : behind.remaining < c.remaining} (h : connective c = .success sign behind passed) :
    nextOperator? c = some sign.operator := by
  obtain ⟨token, kind, _, passes⟩ := passes_of_connective h
  rw [nextOperator?_eq, passes.future]
  exact kind

theorem Run.weaken (le : least ≤ tighter) (h : Run tighter c run last) : Run least c run last := by
  induction h with
  | nil c => exact .nil c
  | cons sign tight operand _ ih => exact .cons sign (Nat.le_trans le tight) operand ih

theorem Breaks.weaken (le : least ≤ tighter) (h : Breaks tighter c error stop) :
    Breaks least c error stop := by
  obtain ⟨sign, passed, place, reads, tight, operand⟩ := h
  exact ⟨sign, passed, place, reads, Nat.le_trans le tight, operand⟩

theorem Run.append {more : List Joint} (first : Run least c run stop)
    (second : Run least stop more last) : Run least c (run ++ more) last := by
  induction first with
  | nil c => exact second
  | cons sign tight operand _ ih => exact .cons sign tight operand (ih second)

theorem Run.tight (h : Run least c run last) :
    ∀ joint ∈ run, least ≤ joint.connective.operator.precedence := by
  induction h with
  | nil c => simp
  | cons sign tight operand _ ih => simpa using ⟨tight, ih⟩

/-- A run of the tightest operators is the run of a product. -/
theorem run_factor_iff : Run .factor c run last ↔
    Run .any c run last ∧ ∀ joint ∈ run, joint.connective.operator = .mul := by
  have mul_iff (op : Operator) : .factor ≤ op.precedence ↔ op = .mul := by
    cases op <;> decide
  constructor
  · intro h
    exact ⟨h.weaken (by decide), fun joint member => (mul_iff _).mp (h.tight joint member)⟩
  · rintro ⟨h, products⟩
    induction h with
    | nil c => exact .nil c
    | cons sign tight operand _ ih =>
      obtain ⟨here, behind⟩ := List.forall_mem_cons.mp products
      exact .cons sign ((mul_iff _).mpr here) operand (ih behind)

/-- No run starts with an operator that comes next and does not bind tightly enough. -/
theorem Run.head_of_loose (h : Run least c run last) (loose : Loose tighter c) :
    ∀ joint ∈ run.head?, ¬tighter ≤ joint.connective.operator.precedence := by
  cases h with
  | nil => simp
  | cons sign tight operand rest =>
    simpa using loose _ (nextOperator?_of_connective sign)

/-- The pairs that a run reads decide where it ends. -/
theorem Run.stop_eq (first : Run least c run last) (second : Run least c run stop) :
    last = stop := by
  induction first with
  | nil c => cases second; rfl
  | cons sign tight operand rest ih =>
    cases second with
    | cons sign' tight' operand' rest' =>
      obtain ⟨_, rfl⟩ := Outcome.success.inj (sign.symm.trans sign')
      obtain ⟨_, rfl⟩ := Outcome.success.inj (operand.symm.trans operand')
      exact ih rest'

theorem Loose.stuck (h : Loose least c) : Stuck least c :=
  fun joint _ reads => reads.head_of_loose h joint rfl (reads.tight joint List.mem_cons_self)

theorem Breaks.stuck (h : Breaks least c error stop) : Stuck least c := by
  rintro joint last (_ | ⟨sign, _, operand, _⟩)
  obtain ⟨_, _, _, sign', _, fails⟩ := h
  obtain ⟨_, rfl⟩ := Outcome.success.inj (sign.symm.trans sign')
  rw [operand] at fails
  contradiction

theorem Breaks.unique {found : SyntaxError} (first : Breaks least c error stop)
    (second : Breaks least c found last) : error = found ∧ stop = last := by
  obtain ⟨_, _, _, sign, _, fails⟩ := first
  obtain ⟨_, _, _, sign', _, fails'⟩ := second
  obtain ⟨_, rfl⟩ := Outcome.success.inj (sign.symm.trans sign')
  obtain ⟨rfl, _⟩ := Outcome.failure.inj (fails.symm.trans fails')
  exact ⟨rfl, rfl⟩

theorem Loose.not_breaks (h : Loose least c) : ¬Breaks least c error stop := by
  rintro ⟨sign, _, _, reads, tight, _⟩
  exact h sign.operator (nextOperator?_of_connective reads) tight

/-- All runs from one place are prefixes of one that cannot be made longer. -/
theorem Run.longest (h : Run least c run last) (stuck : Stuck least last) :
    Longest least c run last := by
  refine ⟨h, ?_⟩
  induction h with
  | nil c =>
    rintro other stop (_ | ⟨sign, tight, operand, _⟩)
    · exact List.nil_prefix
    · exact absurd (.cons sign tight operand (.nil _)) (stuck _ _)
  | @cons _ _ _ _ joint _ _ _ sign _ operand _ ih =>
    rintro other stop (_ | @⟨_, _, _, _, joint', _, _, _, sign', _, operand', rest'⟩)
    · exact List.nil_prefix
    · -- The readers are functions, so both runs read the same pair here.
      obtain ⟨sameSign, rfl⟩ := Outcome.success.inj (sign.symm.trans sign')
      obtain ⟨sameOperand, rfl⟩ := Outcome.success.inj (operand.symm.trans operand')
      obtain rfl : joint = joint' := Joint.ext sameSign sameOperand
      exact (List.prefix_cons_inj joint).mpr (ih stuck _ _ rest')

theorem Longest.unique (first : Longest least c run last) (second : Longest least c other stop) :
    run = other ∧ last = stop := by
  obtain rfl : run = other :=
    (second.longest run last first.reads).eq_of_length_le
      (first.longest other stop second.reads).length_le
  exact ⟨rfl, first.reads.stop_eq second.reads⟩

end

/-! ## Climbing -/

/-- A climb reads a run and settles at its end. -/
theorem exists_run {start c : Cursor} (lhs : Tree) (advanced : c.remaining < start.remaining)
    (least : Precedence) :
    ∃ run last, Run least c run last ∧
      Settles least (grouped lhs run) last (climb start lhs c advanced least) := by
  by_cases binds : (nextOperator? c).any (least ≤ ·.precedence) = true
  · obtain ⟨op, next, tight⟩ := (Option.any_eq_true ..).mp binds
    have tight : least ≤ op.precedence := of_decide_eq_true tight
    obtain ⟨sign, rest, ahead, kind⟩ := exists_sign next
    obtain ⟨behind, passed, reads, _⟩ :=
      connective_of_operator ahead (operator?_eq_some.mpr kind)
    cases operand : primary behind with
    | failure error place =>
      rw [climb_of_failure binds (extend_of_failure reads operand)]
      exact ⟨[], c, .nil c, _, passed, place, reads, tight, operand⟩
    | success rhs stop further =>
      let joint : Joint := ⟨⟨op, sign.span⟩, rhs⟩
      cases op with
      | mul =>
        rw [climb_of_success binds (extend_mul reads operand)]
        obtain ⟨run, last, runs, settled⟩ := exists_run (lhs.join ⟨.mul, sign.span⟩ rhs)
          (Nat.lt_trans (Nat.lt_trans further passed) advanced) least
        exact ⟨joint :: run, last, .cons reads tight operand runs, by
          rw [grouped_mul]
          exact settled⟩
      | add =>
        -- The operand of a sum takes the products behind it in a climb of its own.
        have step : extend lhs c = (climb c rhs stop (Nat.lt_trans further passed) .factor).map
            (lhs.join ⟨.add, sign.span⟩) := extend_add reads operand
        obtain ⟨factors, place, products, settled⟩ :=
          exists_run rhs (Nat.lt_trans further passed) .factor
        cases climbs : climb c rhs stop (Nat.lt_trans further passed) .factor with
        | failure error last =>
          rw [climbs] at settled step
          rw [climb_of_failure binds step]
          exact ⟨joint :: factors, place,
            .cons reads tight operand (products.weaken least.le_factor),
            settled.weaken least.le_factor⟩
        | success term last furthest =>
          rw [climbs] at settled step
          obtain ⟨rfl, loose, rfl⟩ := settled
          rw [climb_of_success binds step]
          obtain ⟨run, stop, runs, settled⟩ :=
            exists_run (lhs.join ⟨.add, sign.span⟩ (grouped rhs factors))
              (Nat.lt_trans furthest advanced) least
          refine ⟨joint :: (factors ++ run), stop,
            .cons reads tight operand ((products.weaken least.le_factor).append runs), ?_⟩
          rw [grouped_add (run_factor_iff.mp products).2]
          · exact settled
          · intro joint member product
            exact runs.head_of_loose loose joint member (by rw [product]; decide)
  · rw [climb_of_none binds]
    exact ⟨[], c, .nil c, rfl, loose_iff.mpr binds, rfl⟩
termination_by c.remaining

theorem Settles.stuck {least : Precedence} {whole : Tree} {start last : Cursor}
    {outcome : Outcome start Tree} (h : Settles least whole last outcome) : Stuck least last := by
  cases outcome with
  | success tree stop further =>
    obtain ⟨_, loose, _⟩ := h
    exact loose.stuck
  | failure error stop => exact Breaks.stuck h

section

variable {start c : Cursor} {lhs tree : Tree} {advanced : c.remaining < start.remaining}
  {least : Precedence} {error : SyntaxError} {stop : Cursor}

theorem climb_eq_success_iff :
    (∃ further, climb start lhs c advanced least = .success tree stop further) ↔
      ∃ run, Longest least c run stop ∧ Loose least stop ∧ tree = grouped lhs run := by
  obtain ⟨run, last, runs, settled⟩ := exists_run lhs advanced least
  have longest := runs.longest settled.stuck
  constructor
  · rintro ⟨further, climbs⟩
    rw [climbs] at settled
    obtain ⟨rfl, loose, rfl⟩ := settled
    exact ⟨run, longest, loose, rfl⟩
  · rintro ⟨other, longest', loose, rfl⟩
    obtain ⟨rfl, rfl⟩ := longest.unique longest'
    cases climbs : climb start lhs c advanced least with
    | failure error place =>
      rw [climbs] at settled
      exact absurd settled loose.not_breaks
    | success tree place further =>
      rw [climbs] at settled
      obtain ⟨rfl, _, rfl⟩ := settled
      exact ⟨further, rfl⟩

theorem climb_eq_failure_iff : climb start lhs c advanced least = .failure error stop ↔
    ∃ run last, Longest least c run last ∧ Breaks least last error stop := by
  obtain ⟨run, last, runs, settled⟩ := exists_run lhs advanced least
  have longest := runs.longest settled.stuck
  constructor
  · intro climbs
    rw [climbs] at settled
    exact ⟨run, last, longest, settled⟩
  · rintro ⟨other, place, longest', breaks⟩
    obtain ⟨rfl, rfl⟩ := longest.unique longest'
    cases climbs : climb start lhs c advanced least with
    | failure found behind =>
      rw [climbs] at settled
      obtain ⟨rfl, rfl⟩ := settled.unique breaks
      rfl
    | success tree behind further =>
      rw [climbs] at settled
      obtain ⟨_, loose, _⟩ := settled
      exact absurd breaks loose.not_breaks

/-- At the tightest bound, a climb takes products only, and stops before the first sum. -/
theorem climb_factor_eq_success_iff :
    (∃ further, climb start lhs c advanced .factor = .success tree stop further) ↔
      ∃ run, Run .any c run stop ∧ (∀ joint ∈ run, joint.connective.operator = .mul) ∧
        nextOperator? stop ≠ some .mul ∧ tree = product lhs run := by
  rw [climb_eq_success_iff]
  constructor
  · rintro ⟨run, longest, loose, rfl⟩
    obtain ⟨reads, products⟩ := run_factor_iff.mp longest.reads
    exact ⟨run, reads, products, loose_factor_iff.mp loose, grouped_of_products products⟩
  · rintro ⟨run, reads, products, next, rfl⟩
    have loose := loose_factor_iff.mpr next
    exact ⟨run, (run_factor_iff.mpr ⟨reads, products⟩).longest loose.stuck, loose,
      (grouped_of_products products).symm⟩

end

/-- Every operator binds at least as tightly as a sum, so the two looser bounds are one. -/
theorem climb_any {start c : Cursor} (lhs : Tree) (advanced : c.remaining < start.remaining) :
    climb start lhs c advanced .any = climb start lhs c advanced .term := by
  have same : (nextOperator? c).any (.any ≤ ·.precedence) =
      (nextOperator? c).any (.term ≤ ·.precedence) := by
    cases nextOperator? c with
    | none => rfl
    | some op => cases op <;> decide
  by_cases binds : (nextOperator? c).any (.any ≤ ·.precedence) = true
  · cases step : extend lhs c with
    | failure error stop => rw [climb_of_failure binds step, climb_of_failure (same ▸ binds) step]
    | success longer stop further =>
      rw [climb_of_success binds step, climb_of_success (same ▸ binds) step]
      exact climb_any longer (Nat.lt_trans further advanced)
  · rw [climb_of_none binds, climb_of_none (same ▸ binds)]
termination_by c.remaining

/-- From any place and on top of any operand, a climb takes the longest run of operators that bind
tightly enough, with their operands. It fails where an operator of the run has no operand, and
otherwise groups the run as a sum of products. -/
theorem climb_grouped {start c : Cursor} (lhs : Tree) (advanced : c.remaining < start.remaining) :
    (∀ least tree stop,
      (∃ further, climb start lhs c advanced least = .success tree stop further) ↔
        ∃ run, Longest least c run stop ∧ Loose least stop ∧ tree = grouped lhs run) ∧
    (∀ least error stop, climb start lhs c advanced least = .failure error stop ↔
      ∃ run last, Longest least c run last ∧ Breaks least last error stop) ∧
    (∀ tree stop, (∃ further, climb start lhs c advanced .factor = .success tree stop further) ↔
      ∃ run, Run .any c run stop ∧ (∀ joint ∈ run, joint.connective.operator = .mul) ∧
        nextOperator? stop ≠ some .mul ∧ tree = product lhs run) ∧
    climb start lhs c advanced .any = climb start lhs c advanced .term :=
  ⟨fun _ _ _ => climb_eq_success_iff, fun _ _ _ => climb_eq_failure_iff,
    fun _ _ => climb_factor_eq_success_iff, climb_any lhs advanced⟩

/-- Behind a sum that is read already, a product takes the whole sum. -/
theorem climb_grouped_behind_sum :
    let tokens := Token.scan "a+b*c+d"
    let c : Cursor := ⟨(tokens.take 3).reverse, tokens.drop 3⟩
    let sum : Tree := (Tree.literal (.symbol "a" ⟨0, 1⟩)).join ⟨.add, ⟨1, 2⟩⟩
      (.literal (.symbol "b" ⟨2, 3⟩))
    c.remaining < (Cursor.start tokens).remaining ∧
      ∃ run stop, Longest .any c run stop ∧ Loose .any stop ∧ grouped sum run =
        (sum.join ⟨.mul, ⟨3, 4⟩⟩ (.literal (.symbol "c" ⟨4, 5⟩))).join ⟨.add, ⟨5, 6⟩⟩
          (.literal (.symbol "d" ⟨6, 7⟩)) := by
  intro tokens c sum
  have advanced : c.remaining < (Cursor.start tokens).remaining := by decide +kernel
  have reads : ∀ advanced, (climb (.start tokens) sum c advanced .any).result =
      .ok ((sum.join ⟨.mul, ⟨3, 4⟩⟩ (.literal (.symbol "c" ⟨4, 5⟩))).join ⟨.add, ⟨5, 6⟩⟩
        (.literal (.symbol "d" ⟨6, 7⟩))) := by decide +kernel
  refine ⟨advanced, ?_⟩
  specialize reads advanced
  cases climbs : climb (.start tokens) sum c advanced .any with
  | failure error stop =>
    rw [climbs] at reads
    contradiction
  | success tree stop further =>
    rw [climbs] at reads
    obtain rfl := Except.ok.inj reads
    obtain ⟨run, longest, loose, grouping⟩ :=
      ((climb_grouped sum advanced).1 .any _ stop).mp ⟨further, climbs⟩
    exact ⟨run, stop, longest, loose, grouping.symm⟩

end Parser

end SymbolicCalculus
