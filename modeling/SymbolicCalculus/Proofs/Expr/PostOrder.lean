import Mathlib.Data.List.Nodup
import SymbolicCalculus.Expr.PostOrder

/-!
What a walk visits: every node of a tree once, in post-order, and nothing more however often it is
asked again. Nodes are told apart by their places, so parts of a tree may be equal.
-/

set_option autoImplicit false

namespace SymbolicCalculus

/-- One place comes before another in post-order: it is deeper inside the other, or the two are in
the left and in the right operand of one operation. -/
inductive Place.Before : Place → Place → Prop where
  | inside (deeper : Place) (side : Side) (place : Place) : Before (deeper ++ side :: place) place
  | across (deeper deeper' place : Place) :
      Before (deeper ++ .left :: place) (deeper' ++ .right :: place)

theorem Place.Before.ne {p q : Place} (h : Before p q) : p ≠ q := by
  intro same
  cases h with
  | inside deeper side =>
    have lengths := congrArg List.length same
    simp only [List.length_append, List.length_cons] at lengths
    omega
  | across deeper deeper' place =>
    have sides := List.append_inj_right' same rfl
    simp at sides

namespace Expr

/-! ## The nodes of a tree by their places -/

def operand? (side : Side) : Expr → Option Expr
  | atom _ => none
  | operation _ left right =>
    match side with
    | .left => some left
    | .right => some right

/-- What stands at a place, if the tree goes down that far. -/
def at? (root : Expr) : Place → Option Expr
  | [] => some root
  | side :: place => (root.at? place).bind (operand? side)

theorem at?_append (root : Expr) (deeper place : Place) :
    root.at? (deeper ++ place) = (root.at? place).bind fun e => e.at? deeper := by
  induction deeper with
  | nil => exact (Option.bind_fun_some _).symm
  | cons side deeper ih =>
    calc root.at? (side :: (deeper ++ place))
        = (root.at? (deeper ++ place)).bind (operand? side) := rfl
      _ = ((root.at? place).bind fun e => e.at? deeper).bind (operand? side) := by rw [ih]
      _ = (root.at? place).bind fun e => e.at? (side :: deeper) := Option.bind_assoc ..

theorem at?_atom_append (value : Atom) (deeper : Place) (side : Side) :
    (atom value).at? (deeper ++ [side]) = none := by
  rw [at?_append]
  rfl

/-- A place that starts with a step to an operand is a place in the operand. -/
theorem at?_append_side {root e : Expr} {side : Side} (step : root.operand? side = some e)
    (deeper : Place) : root.at? (deeper ++ [side]) = e.at? deeper := by
  have first : root.at? [side] = some e := step
  rw [at?_append, first, Option.bind_some]

theorem at?_left (op : Operator) (left right : Expr) (deeper : Place) :
    (operation op left right).at? (deeper ++ [.left]) = left.at? deeper :=
  at?_append_side rfl deeper

theorem at?_right (op : Operator) (left right : Expr) (deeper : Place) :
    (operation op left right).at? (deeper ++ [.right]) = right.at? deeper :=
  at?_append_side rfl deeper

/-- The nodes of the tree at a place: all those of the left operand, all those of the right, and
then the operation. -/
def sites (place : Place) : Expr → List Site
  | atom value => [⟨place, atom value⟩]
  | operation op left right =>
    left.sites (.left :: place) ++ right.sites (.right :: place) ++
      [⟨place, operation op left right⟩]

theorem mem_sites {site : Site} {place : Place} {e : Expr} :
    site ∈ e.sites place ↔
      ∃ deeper, site.place = deeper ++ place ∧ e.at? deeper = some site.expr := by
  obtain ⟨place', e'⟩ := site
  induction e generalizing place with
  | atom value =>
    simp only [sites, List.mem_singleton, Site.mk.injEq]
    constructor
    · rintro ⟨rfl, rfl⟩
      exact ⟨[], rfl, rfl⟩
    · rintro ⟨deeper, rfl, found⟩
      rcases List.eq_nil_or_concat deeper with rfl | ⟨deeper, side, rfl⟩
      · exact ⟨rfl, (Option.some.inj found).symm⟩
      · rw [List.concat_eq_append, at?_atom_append] at found
        cases found
  | operation op left right ihLeft ihRight =>
    simp only [sites, List.mem_append, List.mem_singleton, ihLeft, ihRight, Site.mk.injEq]
    constructor
    · rintro ((⟨deeper, rfl, found⟩ | ⟨deeper, rfl, found⟩) | ⟨rfl, rfl⟩)
      · exact ⟨deeper ++ [.left], by simp, (at?_left ..).trans found⟩
      · exact ⟨deeper ++ [.right], by simp, (at?_right ..).trans found⟩
      · exact ⟨[], rfl, rfl⟩
    · rintro ⟨deeper, rfl, found⟩
      rcases List.eq_nil_or_concat deeper with rfl | ⟨deeper, side, rfl⟩
      · exact .inr ⟨rfl, (Option.some.inj found).symm⟩
      · rw [List.concat_eq_append] at found ⊢
        cases side with
        | left =>
          rw [at?_left] at found
          exact .inl (.inl ⟨deeper, by simp, found⟩)
        | right =>
          rw [at?_right] at found
          exact .inl (.inr ⟨deeper, by simp, found⟩)

theorem pairwise_sites (e : Expr) (place : Place) :
    (e.sites place).Pairwise fun site site' => Place.Before site.place site'.place := by
  induction e generalizing place with
  | atom value => exact List.pairwise_singleton _ _
  | operation op left right ihLeft ihRight =>
    rw [sites, List.pairwise_append, List.pairwise_append]
    refine ⟨⟨ihLeft _, ihRight _, ?_⟩, List.pairwise_singleton _ _, ?_⟩
    · intro site first site' second
      obtain ⟨deeper, atFirst, _⟩ := mem_sites.mp first
      obtain ⟨deeper', atSecond, _⟩ := mem_sites.mp second
      rw [atFirst, atSecond]
      exact .across deeper deeper' place
    · intro site operand root member
      rw [List.mem_singleton.mp member]
      rcases List.mem_append.mp operand with first | second
      · obtain ⟨deeper, atSite, _⟩ := mem_sites.mp first
        rw [atSite]
        exact .inside deeper .left place
      · obtain ⟨deeper, atSite, _⟩ := mem_sites.mp second
        rw [atSite]
        exact .inside deeper .right place

theorem nodup_sites (e : Expr) (place : Place) : ((e.sites place).map Site.place).Nodup := by
  refine List.pairwise_map.mpr ?_
  exact (e.pairwise_sites place).imp Place.Before.ne

theorem getLast?_sites (e : Expr) (place : Place) :
    (e.sites place).getLast? = some ⟨place, e⟩ := by
  cases e <;> simp [sites]

namespace Walk

/-! ## Runs of a walk -/

/-- From one state a walk visits the nodes of a list one after another, and is then in another. -/
inductive Visits : Walk → List Site → Walk → Prop where
  | nil (walk : Walk) : Visits walk [] walk
  | cons {walk rest final : Walk} {site : Site} {sites : List Site}
      (step : walk.next = (some site, rest)) (further : Visits rest sites final) :
      Visits walk (site :: sites) final

theorem Visits.append {walk middle final : Walk} {sites more : List Site}
    (h : Visits walk sites middle) (further : Visits middle more final) :
    Visits walk (sites ++ more) final := by
  induction h with
  | nil => exact further
  | cons step _ ih => exact .cons step (ih further)

/-- What a walk visits hangs on its next step. -/
theorem Visits.of_next_eq {walk walk' final : Walk} {sites : List Site}
    (h : Visits walk' sites final) (same : walk.next = walk'.next) (filled : sites ≠ []) :
    Visits walk sites final := by
  cases h with
  | nil => exact absurd rfl filled
  | cons step further => exact .cons (same.trans step) further

/-- A walk that does not come from the right operand of an operation turns to the operands. -/
theorem next_operation {lastVisited : Option Place} {place : Place}
    (elsewhere : lastVisited ≠ some (.right :: place)) (op : Operator) (left right : Expr)
    (rest : List Site) :
    next ⟨⟨place, operation op left right⟩ :: rest, lastVisited⟩ =
      next ⟨⟨.left :: place, left⟩ :: ⟨.right :: place, right⟩ ::
        ⟨place, operation op left right⟩ :: rest, lastVisited⟩ := by
  simp only [next, advance, if_neg (mt isLastVisited_iff.mp elsewhere)]

/-- The node visited last is not in the tree at a place. -/
def Fresh (place : Place) (lastVisited : Option Place) : Prop :=
  ∀ last, lastVisited = some last → ¬place <:+ last

theorem Fresh.operand {place : Place} {lastVisited : Option Place} (h : Fresh place lastVisited)
    (side : Side) : Fresh (side :: place) lastVisited := by
  intro last visited inside
  exact h last visited ((List.suffix_cons side place).trans inside)

theorem fresh_right (place : Place) : Fresh (.right :: place) (some (.left :: place)) := by
  rintro _ ⟨⟩ inside
  have same := inside.eq_of_length rfl
  simp at same

/-- From meeting a node until it comes back to the rest of its stack, a walk visits the nodes of the
tree there and nothing else. -/
theorem visits_sites (e : Expr) {place : Place} {lastVisited : Option Place}
    (fresh : Fresh place lastVisited) (rest : List Site) :
    Visits ⟨⟨place, e⟩ :: rest, lastVisited⟩ (e.sites place) ⟨rest, some place⟩ := by
  -- Nothing in the tree was visited before, so none of its operations is taken for done too early.
  induction e generalizing place lastVisited rest with
  | atom value => exact .cons rfl (.nil _)
  | operation op left right ihLeft ihRight =>
    have elsewhere : lastVisited ≠ some (.right :: place) :=
      fun visited => fresh _ visited (List.suffix_cons _ _)
    have first := ihLeft (fresh.operand .left)
      (⟨.right :: place, right⟩ :: ⟨place, operation op left right⟩ :: rest)
    have second := ihRight (fresh_right place) (⟨place, operation op left right⟩ :: rest)
    -- Now the right operand was visited last, which says that the operation is due itself.
    have own : next ⟨⟨place, operation op left right⟩ :: rest, some (.right :: place)⟩ =
        (some ⟨place, operation op left right⟩, ⟨rest, some place⟩) := by
      simp [next, advance, visit, isLastVisited_iff.mpr]
    refine ((first.append second).append (.cons own (.nil _))).of_next_eq ?_ (by simp)
    exact next_operation elsewhere op left right rest

theorem visits_all (e : Expr) : Visits e.walk (e.sites []) ⟨[], some []⟩ :=
  visits_sites e (by intro last visited; cases visited) []

/-! ## Answers -/

/-- What comes of asking for the next node when it was asked for some times before. -/
def answer (walk : Walk) : Nat → Option Site
  | 0 => walk.next.1
  | n + 1 => walk.next.2.answer n

/-- A walk that has ended stays as it is. -/
theorem next_of_ended {walk : Walk} (ended : walk.stack = []) : walk.next = (none, walk) := by
  rw [next, ended]

theorem answer_of_ended {walk : Walk} (ended : walk.stack = []) (n : Nat) :
    walk.answer n = none := by
  induction n with
  | zero => rw [answer, next_of_ended ended]
  | succ n ih => rw [answer, next_of_ended ended, ih]

theorem Visits.answer_eq {walk final : Walk} {sites : List Site} (h : Visits walk sites final)
    (ended : final.stack = []) (n : Nat) : walk.answer n = sites[n]? := by
  induction h generalizing n with
  | nil => exact answer_of_ended ended n
  | cons step _ ih =>
    cases n with
    | zero => rw [answer, step, List.getElem?_cons_zero]
    | succ n => rw [answer, step, ih ended, List.getElem?_cons_succ]

theorem collect_of_next {walk rest : Walk} {site : Site} (h : walk.next = (some site, rest)) :
    collect [] walk = site.expr :: collect [] rest := by
  rw [collect]
  split
  · rename_i ended
    rw [ended] at h
    cases h
  · rename_i found
    rw [found] at h
    cases h
    exact collect_eq [site.expr] rest

theorem collect_of_end {walk rest : Walk} (h : walk.next = (none, rest)) :
    collect [] walk = [] := by
  rw [collect]
  split
  · rfl
  · rename_i found
    rw [found] at h
    cases h

theorem Visits.collect_eq {walk final : Walk} {sites : List Site} (h : Visits walk sites final)
    (ended : final.stack = []) : collect [] walk = sites.map Site.expr := by
  induction h with
  | nil walk => exact collect_of_end (next_of_ended ended)
  | cons step _ ih => rw [collect_of_next step, ih ended, List.map_cons]

end Walk

/-- A walk through a tree visits every node, and each one once. They come in post-order, with the
root as the last, and afterwards there is no further one. -/
theorem walk_postOrder (e : Expr) :
    (∀ n, e.walk.answer n = (e.sites [])[n]?) ∧
      (∀ site, site ∈ e.sites [] ↔ e.at? site.place = some site.expr) ∧
      ((e.sites []).map Site.place).Nodup ∧
      (e.sites []).Pairwise (fun site site' => Place.Before site.place site'.place) ∧
      (e.sites []).getLast? = some ⟨[], e⟩ := by
  refine ⟨(Walk.visits_all e).answer_eq rfl, ?_, e.nodup_sites [], e.pairwise_sites [],
    e.getLast?_sites []⟩
  intro site
  simp [mem_sites]

/-- In `0 * (1 * 0)` the inner product is met just after a node that equals its right operand. -/
example :
    let inner := mul (number .one) (number .zero)
    (mul (number .zero) inner).postOrder =
      [number .zero, number .one, number .zero, inner, mul (number .zero) inner] := by
  decide +kernel

end Expr

end SymbolicCalculus
