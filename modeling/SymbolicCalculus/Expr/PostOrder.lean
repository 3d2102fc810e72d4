import SymbolicCalculus.Expr.Basic

/-!
Walking through all nodes of an expression, operands before the operation that owns them, and the
comparisons that such walks decide.
-/

set_option autoImplicit false

namespace SymbolicCalculus

/-- One of the two operands of an operation. -/
inductive Side where
  | left
  | right
  deriving DecidableEq, Repr

/-- Where a node stands in a tree: the sides taken on the way down to it, the last one first. -/
abbrev Place : Type := List Side

/-- Equality of places. Those that a walk compares end in different sides or share what is above as
one object, so that is not read in full. -/
def Place.same : Place → Place → Bool
  | [], [] => true
  | side :: place, side' :: place' =>
    side == side' && withPtrEq place place' (fun _ => decide (place = place')) decide_eq_true
  | _, _ => false

theorem Place.same_iff {p q : Place} : p.same q = true ↔ p = q := by
  cases p <;> cases q <;> simp [same, withPtrEq]

namespace Expr

/-- A node of a tree. Two of them are the same if their places are, whatever they look like. -/
structure Site where
  place : Place
  expr : Expr
  deriving DecidableEq, Repr

/-- The state of a walk: the nodes it has met and not visited yet, the next on top, and where it has
just been. -/
structure Walk where
  stack : List Site
  lastVisited : Option Place
  deriving Repr

namespace Walk

/-- The visit of a node that lies on top of the rest of a stack. -/
def visit (site : Site) (rest : List Site) : Site × Walk := (site, ⟨rest, some site.place⟩)

def isLastVisited (lastVisited : Option Place) (place : Place) : Bool :=
  lastVisited.any (·.same place)

theorem isLastVisited_iff {lastVisited : Option Place} {place : Place} :
    isLastVisited lastVisited place = true ↔ lastVisited = some place := by
  cases lastVisited <;> simp [isLastVisited, Place.same_iff]

/-- The next node of a walk that has an expression on top of its stack. The right operand comes just
before its operation, so a walk that comes from there is done with both operands. -/
def advance (rest : List Site) (lastVisited : Option Place) (place : Place) : Expr → Site × Walk
  | atom value => visit ⟨place, atom value⟩ rest
  | operation op left right =>
    if isLastVisited lastVisited (.right :: place) then visit ⟨place, operation op left right⟩ rest
    else
      advance (⟨.right :: place, right⟩ :: ⟨place, operation op left right⟩ :: rest) lastVisited
        (.left :: place) left

/-- The next node, if there is one, and the walk behind it. -/
def next (walk : Walk) : Option Site × Walk :=
  match walk.stack with
  | [] => (none, walk)
  | site :: rest => (advance rest walk.lastVisited site.place site.expr).map some id

/-- How many nodes are due for one on the stack: an operation whose right operand was visited last
is due alone. -/
def due (lastVisited : Option Place) (site : Site) : Nat :=
  if lastVisited = some (.right :: site.place) then 1 else site.expr.size

/-- The nodes due for a stack, each entry behind those above it. -/
def dueAll : Option Place → List Site → Nat
  | _, [] => 0
  | lastVisited, site :: rest => due lastVisited site + dueAll (some site.place) rest

def pending (walk : Walk) : Nat := dueAll walk.lastVisited walk.stack

theorem due_pos (lastVisited : Option Place) (site : Site) : 0 < due lastVisited site := by
  unfold due
  split
  · exact Nat.one_pos
  · exact site.expr.size_pos

theorem due_le (lastVisited : Option Place) (site : Site) :
    due lastVisited site ≤ site.expr.size := by
  unfold due
  split
  · exact site.expr.size_pos
  · exact Nat.le_refl _

theorem pending_advance (rest : List Site) (lastVisited : Option Place) (place : Place) (e : Expr) :
    (advance rest lastVisited place e).2.pending <
      due lastVisited ⟨place, e⟩ + dueAll (some place) rest := by
  induction e generalizing rest place with
  | atom value =>
    have := due_pos lastVisited ⟨place, atom value⟩
    simp only [advance, visit, pending]
    omega
  | operation op left right ihLeft _ =>
    have pos := due_pos lastVisited ⟨place, operation op left right⟩
    unfold advance
    split
    · simp only [visit, pending]
      omega
    · rename_i elsewhere
      have below := ihLeft (⟨.right :: place, right⟩ :: ⟨place, operation op left right⟩ :: rest)
        (.left :: place)
      have first := due_le lastVisited ⟨.left :: place, left⟩
      have second := due_le (some (.left :: place)) ⟨.right :: place, right⟩
      have whole : due lastVisited ⟨place, operation op left right⟩ = left.size + right.size + 1 :=
        if_neg (mt isLastVisited_iff.mpr elsewhere)
      have alone : due (some (.right :: place)) ⟨place, operation op left right⟩ = 1 := if_pos rfl
      simp only [dueAll, alone] at below first second
      omega

theorem pending_next {walk rest : Walk} {site : Site} (h : walk.next = (some site, rest)) :
    rest.pending < walk.pending := by
  obtain ⟨stack, lastVisited⟩ := walk
  cases stack with
  | nil => cases h
  | cons top below =>
    have less := pending_advance below lastVisited top.place top.expr
    have behind : (advance below lastVisited top.place top.expr).2 = rest := congrArg Prod.snd h
    rwa [behind] at less

/-- The nodes still to come, behind nodes given back to front. -/
def collect (nodes : List Expr) (walk : Walk) : List Expr :=
  match _ : walk.next with
  | (none, _) => nodes.reverse
  | (some site, rest) => collect (site.expr :: nodes) rest
termination_by walk.pending
decreasing_by have := pending_next ‹walk.next = _›; omega

theorem collect_eq (nodes : List Expr) (walk : Walk) :
    collect nodes walk = nodes.reverse ++ collect [] walk := by
  rw [collect, collect]
  split
  · simp
  · rename_i site rest h
    rw [collect_eq (site.expr :: nodes) rest, collect_eq [site.expr] rest]
    simp
termination_by walk.pending
decreasing_by all_goals have := pending_next ‹walk.next = _›; omega

end Walk

-- A walk is a state and not a recursion, so that it can stop after any node.

def walk (e : Expr) : Walk := ⟨[⟨[], e⟩], none⟩

def postOrder (e : Expr) : List Expr := e.walk.collect []

/-- Equality of two nodes alone, without their operands. -/
def sameNode : Expr → Expr → Bool
  | atom value, atom value' => value.same value'
  | operation op _ _, operation op' _ _ => op == op'
  | _, _ => false

def sameWalk (first second : Walk) : Bool :=
  match _ : first.next, second.next with
  | (none, _), (none, _) => true
  | (some a, first'), (some b, second') =>
    if a.expr.sameNode b.expr then sameWalk first' second' else false
  | _, _ => false
termination_by first.pending
decreasing_by have := Walk.pending_next ‹first.next = _›; omega

/-- Equality of expressions. Every operation has two operands, so the order of the nodes fixes the
shape. -/
def same (e e' : Expr) : Bool := sameWalk e.walk e'.walk

/-- A value that is put into a fingerprint. The kinds of nodes and the operators are told by their
positions among the others of their type. -/
inductive Mark where
  | index (position : Nat)
  | bits (bits : UInt64)
  | name (name : String)
  deriving DecidableEq, Repr

def operatorIndex : Operator → Nat
  | .add => 0
  | .mul => 1

/-- What a node adds to a fingerprint: its kind, and then what it holds itself. Numbers add their
bits. -/
def marks : Expr → List Mark
  | atom (.number n) => [.index 0, .bits n.value.bits]
  | atom (.var v) => [.index 1, .name v.name]
  | operation op _ _ => [.index 2, .index (operatorIndex op)]

def fingerprint (e : Expr) : List Mark := e.postOrder.flatMap marks

def containsVariable (name : String) (e : Expr) : Bool :=
  e.postOrder.any fun node => node.asVariable?.any (·.name == name)

/-- The names of the variables that occur, sorted and without repeats. -/
def variableNames (e : Expr) : List String :=
  ((e.postOrder.filterMap asVariable?).map Variable.name).eraseDups.mergeSort

/-- The different expressions of a list. -/
def distinct : List Expr → List Expr
  | [] => []
  | e :: es => if es.any (same e) then distinct es else e :: distinct es

end Expr

end SymbolicCalculus
