import SymbolicCalculus.Data.Expr
import SymbolicCalculus.Proofs.Expr.Lowering

/-!
Which data are stored expressions. Data of the right shape spell a draft, a tree with leaves that
nobody has checked yet, and are read exactly if every leaf of the draft passes. No other data are read.
-/

set_option autoImplicit false

namespace SymbolicCalculus

/-- A tree in the form that it is stored in, with any doubles and any names in its leaves. -/
inductive Draft where
  | number (value : Double)
  | var (name : String)
  | operation (op : Operator) (left right : Draft)
  deriving DecidableEq, Repr

namespace Draft

def numbers : Draft → List Double
  | number x => [x]
  | var _ => []
  | operation _ left right => left.numbers ++ right.numbers

def names : Draft → List String
  | number _ => []
  | var name => [name]
  | operation _ left right => left.names ++ right.names

/-- The draft with the positive zero in the place of every zero. -/
def unsigned : Draft → Draft
  | number x => number (if x.isZero then .zero else x)
  | var name => var name
  | operation op left right => operation op left.unsigned right.unsigned

/-- Every number is finite and not below zero, and every name is made of one or more letters. -/
structure Sound (draft : Draft) : Prop where
  numbers : ∀ x ∈ draft.numbers, x.isFinite = true ∧ 0 ≤ x.toRat
  names : ∀ name ∈ draft.names,
    name ≠ "" ∧ ∀ c ∈ name.toList, 'a' ≤ c ∧ c ≤ 'z' ∨ 'A' ≤ c ∧ c ≤ 'Z'

theorem sound_number {x : Double} (span : Span) :
    (number x).Sound ↔ (Literal.number x span).Valid :=
  ⟨fun sound => sound.numbers x List.mem_cons_self,
    fun valid => ⟨List.forall_mem_singleton.mpr valid, List.forall_mem_nil _⟩⟩

theorem sound_var {name : String} (span : Span) :
    (var name).Sound ↔ (Literal.symbol name span).Valid :=
  ⟨fun sound => sound.names name List.mem_cons_self,
    fun valid => ⟨List.forall_mem_nil _, List.forall_mem_singleton.mpr valid⟩⟩

theorem sound_operation {op : Operator} {left right : Draft} :
    (operation op left right).Sound ↔ left.Sound ∧ right.Sound := by
  constructor
  · rintro ⟨numbers, names⟩
    obtain ⟨first, second⟩ := List.forall_mem_append.mp numbers
    obtain ⟨first', second'⟩ := List.forall_mem_append.mp names
    exact ⟨⟨first, first'⟩, ⟨second, second'⟩⟩
  · rintro ⟨first, second⟩
    exact ⟨List.forall_mem_append.mpr ⟨first.numbers, second.numbers⟩,
      List.forall_mem_append.mpr ⟨first.names, second.names⟩⟩

end Draft

namespace Expr

def draft : Expr → Draft
  | atom (.number n) => .number n.value
  | atom (.var v) => .var v.name
  | operation op left right => .operation op left.draft right.draft

theorem draft_eq_number {e : Expr} {x : Double} :
    e.draft = .number x ↔ ∃ n : Number, e = atom (.number n) ∧ n.value = x := by
  cases e with
  | atom value => cases value <;> simp [draft]
  | operation op left right => simp [draft]

theorem draft_eq_var {e : Expr} {name : String} :
    e.draft = .var name ↔ ∃ v : Variable, e = atom (.var v) ∧ v.name = name := by
  cases e with
  | atom value => cases value <;> simp [draft]
  | operation op left right => simp [draft]

theorem draft_eq_operation {e : Expr} {op : Operator} {first second : Draft} :
    e.draft = .operation op first second ↔
      ∃ left right, e = operation op left right ∧ left.draft = first ∧ right.draft = second := by
  cases e with
  | atom value => cases value <;> simp [draft]
  | operation op' left right => simp [draft, and_assoc]

theorem unsigned_draft (e : Expr) : e.draft.unsigned = e.draft := by
  induction e with
  | atom value =>
    cases value with
    | number n => exact congrArg Draft.number (Number.ofDouble_eq_ok.mp n.ofDouble_value).symm
    | var v => rfl
  | operation op left right ihLeft ihRight => rw [draft, Draft.unsigned, ihLeft, ihRight]

theorem isSigned_of_mem_numbers_draft {e : Expr} {x : Double} (h : x ∈ e.draft.numbers) :
    x.isSigned = false := by
  induction e with
  | atom value =>
    cases value with
    | number n =>
      rw [List.mem_singleton.mp h]
      exact n.isSigned_eq_false
    | var v => cases h
  | operation op left right ihLeft ihRight => exact (List.mem_append.mp h).elim ihLeft ihRight

/-- A draft that is sound, and no other, has the leaves of an expression when its zeros have lost
their signs. -/
theorem exists_draft_eq_unsigned_iff {draft : Draft} :
    (∃ e : Expr, e.draft = draft.unsigned) ↔ draft.Sound := by
  induction draft with
  | number x =>
    rw [Draft.sound_number (.point 0), Literal.valid_iff_exists_stores]
    constructor
    · rintro ⟨e, same⟩
      obtain ⟨n, _, value⟩ := draft_eq_number.mp same
      exact ⟨_, .number _ value⟩
    · rintro ⟨_, stores⟩
      cases stores with
      | number _ value => exact ⟨_, draft_eq_number.mpr ⟨_, rfl, value⟩⟩
  | var name =>
    rw [Draft.sound_var (.point 0), Literal.valid_iff_exists_stores]
    constructor
    · rintro ⟨e, same⟩
      obtain ⟨v, _, rfl⟩ := draft_eq_var.mp same
      exact ⟨_, .name v _⟩
    · rintro ⟨_, stores⟩
      cases stores with
      | name v => exact ⟨atom (.var v), rfl⟩
  | operation op left right ihLeft ihRight =>
    rw [Draft.sound_operation, ← ihLeft, ← ihRight]
    constructor
    · rintro ⟨e, same⟩
      obtain ⟨first, second, rfl, left, right⟩ := draft_eq_operation.mp same
      exact ⟨⟨first, left⟩, ⟨second, right⟩⟩
    · rintro ⟨⟨first, left⟩, ⟨second, right⟩⟩
      exact ⟨operation op first second, draft_eq_operation.mpr ⟨first, second, rfl, left, right⟩⟩

end Expr

namespace Data

/-! ## Shapes -/

/-- A number in either form, with its double. -/
inductive IsNumber : Data → Double → Prop where
  | integer (n : Int) : IsNumber (integer n) (.ofInt n)
  | real (x : Double) : IsNumber (real x) x

/-- The name of an operator in either form of a name. -/
inductive IsOperator : Data → Operator → Prop where
  | text (op : Operator) : IsOperator (text op.label) op
  | record (op : Operator) : IsOperator (record [(op.label, null)]) op

/-- The key comes once in a record, with this part. -/
def Holds (fields : List (String × Data)) (key : String) (part : Data) : Prop :=
  fields.filter (·.1 == key) = [(key, part)]

/-- A structure with an operator and two operands, by their keys or in order. Further keys do not
matter. -/
inductive IsOperation : Data → Data → Data → Data → Prop where
  | list (op left right : Data) : IsOperation (list [op, left, right]) op left right
  | record {fields : List (String × Data)} {op left right : Data}
      (hasOperator : Holds fields "op" op) (hasLeft : Holds fields "left" left)
      (hasRight : Holds fields "right" right) : IsOperation (record fields) op left right

/-- Data of the right shape, with the draft that they spell. -/
inductive Spells : Data → Draft → Prop where
  | number {content : Data} {x : Double} (isNumber : content.IsNumber x) :
      Spells (record [("Number", content)]) (.number x)
  | var (name : String) : Spells (record [("Variable", text name)]) (.var name)
  | operation {content sign left right : Data} {op : Operator} {first second : Draft}
      (parts : content.IsOperation sign left right) (isOperator : sign.IsOperator op)
      (spellsLeft : left.Spells first) (spellsRight : right.Spells second) :
      Spells (record [("Operation", content)]) (.operation op first second)

theorem lookup_eq_head? (fields : List (String × Data)) (key : String) :
    fields.lookup key = (fields.filter (·.1 == key)).head?.map Prod.snd := by
  induction fields with
  | nil => rfl
  | cons field fields ih =>
    obtain ⟨name, part⟩ := field
    rw [List.lookup_cons, Bool.beq_comm, List.filter_cons]
    cases same : name == key with
    | true => rfl
    | false => exact ih

theorem holds_iff {fields : List (String × Data)} {key : String} {part : Data} :
    Holds fields key part ↔
      fields.lookup key = some part ∧ (fields.filter (·.1 == key)).length ≤ 1 := by
  rw [lookup_eq_head?]
  constructor
  · intro holds
    rw [holds]
    exact ⟨rfl, Nat.le_refl 1⟩
  · rintro ⟨found, once⟩
    obtain ⟨field, first, rfl⟩ := Option.map_eq_some_iff.mp found
    have named : field.1 = key :=
      eq_of_beq (List.mem_filter.mp (List.mem_of_mem_head? first)).2
    obtain ⟨others, split⟩ := List.head?_eq_some_iff.mp first
    rw [split] at once
    obtain rfl : others = [] := List.length_eq_zero_iff.mp (Nat.le_zero.mp (Nat.le_of_lt_succ once))
    rw [Holds, split, ← named]

theorem distinct_eq_true {keys : List String} {fields : List (String × Data)} :
    distinct keys fields = true ↔ ∀ key ∈ keys, (fields.filter (·.1 == key)).length ≤ 1 := by
  simp [distinct]

theorem isOperation_record {fields : List (String × Data)} {op left right : Data} :
    (record fields).IsOperation op left right ↔
      distinct ["op", "left", "right"] fields = true ∧ fields.lookup "op" = some op ∧
        fields.lookup "left" = some left ∧ fields.lookup "right" = some right := by
  rw [distinct_eq_true]
  constructor
  · rintro (_ | ⟨hasOperator, hasLeft, hasRight⟩)
    obtain ⟨findsOperator, onceOperator⟩ := holds_iff.mp hasOperator
    obtain ⟨findsLeft, onceLeft⟩ := holds_iff.mp hasLeft
    obtain ⟨findsRight, onceRight⟩ := holds_iff.mp hasRight
    exact ⟨by simp [onceOperator, onceLeft, onceRight], findsOperator, findsLeft, findsRight⟩
  · rintro ⟨once, findsOperator, findsLeft, findsRight⟩
    exact .record (holds_iff.mpr ⟨findsOperator, once "op" (by decide)⟩)
      (holds_iff.mpr ⟨findsLeft, once "left" (by decide)⟩)
      (holds_iff.mpr ⟨findsRight, once "right" (by decide)⟩)

theorem IsOperation.parts {content op left right : Data} (h : content.IsOperation op left right) :
    content.part? "op" 0 = some op ∧ content.part? "left" 1 = some left ∧
      content.part? "right" 2 = some right := by
  cases h with
  | list => exact ⟨rfl, rfl, rfl⟩
  | record hasOperator hasLeft hasRight =>
    exact (isOperation_record.mp (.record hasOperator hasLeft hasRight)).2

theorem IsOperation.unique {content op left right op' left' right' : Data}
    (h : content.IsOperation op left right) (h' : content.IsOperation op' left' right') :
    op = op' ∧ left = left' ∧ right = right' := by
  obtain ⟨hasOperator, hasLeft, hasRight⟩ := h.parts
  obtain ⟨hasOperator', hasLeft', hasRight'⟩ := h'.parts
  exact ⟨Option.some.inj (hasOperator.symm.trans hasOperator'),
    Option.some.inj (hasLeft.symm.trans hasLeft'), Option.some.inj (hasRight.symm.trans hasRight')⟩

theorem toDouble_eq_ok {data : Data} {x : Double} :
    data.toDouble = .ok x ↔ data.IsNumber x := by
  constructor
  · intro h
    cases data <;> cases h
    · exact .integer _
    · exact .real _
  · rintro (_ | _) <;> rfl

theorem IsNumber.unique {data : Data} {x y : Double} (h : data.IsNumber x) (h' : data.IsNumber y) :
    x = y :=
  Except.ok.inj ((toDouble_eq_ok.mpr h).symm.trans (toDouble_eq_ok.mpr h'))

theorem bind_eq_ok {α β : Type} {read : Except Error α} {f : α → Except Error β} {value : β} :
    read.bind f = .ok value ↔ ∃ found, read = .ok found ∧ f found = .ok value := by
  cases read <;> simp [Except.bind]

theorem map_eq_ok {α β : Type} {read : Except Error α} {f : α → β} {value : β} :
    read.map f = .ok value ↔ ∃ found, read = .ok found ∧ f found = value := by
  cases read <;> simp [Except.map]

theorem accept_eq_ok {α : Type} {checked : Except Refusal α} {value : α} :
    accept checked = .ok value ↔ checked = .ok value := by
  cases checked <;> simp [accept]

theorem toName_eq_ok {data : Data} {name : String} :
    data.toName = .ok name ↔ data = text name ∨ data = record [(name, null)] := by
  constructor
  · intro h
    unfold toName at h
    split at h <;> cases h
    · exact .inl rfl
    · exact .inr rfl
  · rintro (rfl | rfl) <;> rfl

end Data

theorem Number.decode_eq_ok {content : Data} {n : Number} :
    Number.decode content = .ok n ↔
      ∃ x, content.IsNumber x ∧ n.value = if x.isZero then .zero else x := by
  simp only [decode, Data.bind_eq_ok, Data.toDouble_eq_ok, Data.accept_eq_ok, ofDouble_eq_ok]

theorem Variable.decode_eq_ok {content : Data} {v : Variable} :
    Variable.decode content = .ok v ↔ content = .text v.name := by
  simp only [decode, Data.bind_eq_ok, Data.accept_eq_ok, ofName_eq_ok]
  constructor
  · rintro ⟨name, isText, rfl⟩
    cases content <;> cases isText
    rfl
  · rintro rfl
    exact ⟨v.name, rfl, rfl⟩

theorem Operator.decode_eq_ok {data : Data} {op : Operator} :
    Operator.decode data = .ok op ↔ data.IsOperator op := by
  have known (name : String) : ((if name = add.label then .ok add
      else if name = mul.label then .ok mul else .error .shape) : Except Data.Error Operator) =
        .ok op ↔ name = op.label := by
    by_cases isAdd : name = add.label
    · subst isAdd
      cases op <;> simp [label]
    · by_cases isMul : name = mul.label
      · subst isMul
        cases op <;> simp [label]
      · cases op <;> simp [isAdd, isMul]
  simp only [decode, Data.bind_eq_ok, known, Data.toName_eq_ok]
  constructor
  · rintro ⟨_, rfl | rfl, rfl⟩
    · exact .text op
    · exact .record op
  · rintro (_ | _)
    · exact ⟨_, .inl rfl, rfl⟩
    · exact ⟨_, .inr rfl, rfl⟩

theorem Data.IsOperator.unique {data : Data} {op op' : Operator} (h : data.IsOperator op)
    (h' : data.IsOperator op') : op = op' :=
  Except.ok.inj ((Operator.decode_eq_ok.mpr h).symm.trans (Operator.decode_eq_ok.mpr h'))

namespace Expr

theorem assemble_eq_ok {op : Option Operator} {left right : Option Expr} {e : Expr} :
    assemble op left right = .ok e ↔
      ∃ op' left' right', op = some op' ∧ left = some left' ∧ right = some right' ∧
        e = operation op' left' right' := by
  cases op <;> cases left <;> cases right <;> simp [assemble, eq_comm]

theorem decodePart_eq (key : String) (index : Nat) (content : Data) :
    decodePart key index content =
      match content.part? key index with
      | none => .ok none
      | some part => (decode part).map some := by
  rw [decodePart]
  split <;> simp only [*]

theorem found_eq_some {α : Type} {read : Data → Except Data.Error α} {found : Option Data}
    {value : α} :
    (match found with
      | none => Except.ok none
      | some part => (read part).map some) = Except.ok (some value) ↔
      ∃ part, found = some part ∧ read part = .ok value := by
  cases found <;> simp [Data.map_eq_ok]

/-- An operation is read if it has its parts, whatever the order in which they are read. -/
theorem decodeOperation_eq_ok {content : Data} {e : Expr} :
    decodeOperation content = .ok e ↔
      ∃ sign left right op first second, content.IsOperation sign left right ∧
        sign.IsOperator op ∧ decode left = .ok first ∧ decode right = .ok second ∧
        e = operation op first second := by
  constructor
  · intro h
    cases content with
    | list items =>
      have three : items.length = 3 := by
        simp only [decodeOperation, Data.bind_eq_ok] at h
        obtain ⟨_, _, _, _, _, _, h⟩ := h
        split at h
        · assumption
        · cases h
      obtain ⟨sign, left, right, rfl⟩ := List.length_eq_three.mp three
      simp only [decodeOperation, decodePart_eq, Data.part?, List.getElem?_cons_zero,
        List.getElem?_cons_succ, if_pos three, Data.bind_eq_ok, Data.map_eq_ok] at h
      obtain ⟨_, ⟨op, readsOp, rfl⟩, _, ⟨first, readsLeft, rfl⟩, _, ⟨second, readsRight, rfl⟩, h⟩ := h
      cases h
      exact ⟨sign, left, right, op, first, second, .list sign left right,
        Operator.decode_eq_ok.mp readsOp, readsLeft, readsRight, rfl⟩
    | record fields =>
      simp only [decodeOperation, decodePart_eq, Data.part?, Data.hasFields] at h
      split at h
      case isFalse => cases h
      rename_i once
      simp only [Data.bind_eq_ok] at h
      obtain ⟨_, hasLeft, _, hasOperator, _, hasRight, h⟩ := h
      obtain ⟨op, first, second, rfl, rfl, rfl, rfl⟩ := assemble_eq_ok.mp h
      obtain ⟨sign, findsOp, readsOp⟩ :=
        (@found_eq_some _ Operator.decode (fields.lookup "op") op).mp hasOperator
      obtain ⟨left, findsLeft, readsLeft⟩ := found_eq_some.mp hasLeft
      obtain ⟨right, findsRight, readsRight⟩ := found_eq_some.mp hasRight
      have parts : (Data.record fields).IsOperation sign left right :=
        Data.isOperation_record.mpr ⟨once, findsOp, findsLeft, findsRight⟩
      exact ⟨sign, left, right, op, first, second, parts, Operator.decode_eq_ok.mp readsOp,
        readsLeft, readsRight, rfl⟩
    | _ =>
      -- Other data hold no fields.
      simp [decodeOperation, Data.hasFields] at h
  · rintro ⟨sign, left, right, op, first, second, parts, isOperator, readsLeft, readsRight, rfl⟩
    have readsOp := Operator.decode_eq_ok.mpr isOperator
    cases parts with
    | list =>
      simp [decodeOperation, decodePart_eq, Data.part?, readsOp, readsLeft, readsRight, Except.bind,
        Except.map, assemble]
    | record hasOperator hasLeft hasRight =>
      obtain ⟨once, findsOp, findsLeft, findsRight⟩ :=
        Data.isOperation_record.mp (.record hasOperator hasLeft hasRight)
      simp [decodeOperation, decodePart_eq, Data.part?, Data.hasFields, once, findsOp, findsLeft,
        findsRight, readsOp, readsLeft, readsRight, Except.bind, Except.map, assemble]

/-- Only data of the right shape are read. -/
theorem exists_spells_of_decode {data : Data} {e : Expr} (h : decode data = .ok e) :
    ∃ draft, data.Spells draft := by
  rw [decode.eq_def] at h
  split at h
  · obtain ⟨n, reads, rfl⟩ := Data.map_eq_ok.mp h
    obtain ⟨x, isNumber, _⟩ := Number.decode_eq_ok.mp reads
    exact ⟨.number x, .number isNumber⟩
  · obtain ⟨v, reads, rfl⟩ := Data.map_eq_ok.mp h
    obtain rfl := Variable.decode_eq_ok.mp reads
    exact ⟨.var v.name, .var v.name⟩
  · obtain ⟨sign, left, right, op, _, _, parts, isOperator, readsLeft, readsRight, _⟩ :=
      decodeOperation_eq_ok.mp h
    obtain ⟨first, spellsLeft⟩ := exists_spells_of_decode readsLeft
    obtain ⟨second, spellsRight⟩ := exists_spells_of_decode readsRight
    exact ⟨.operation op first second, .operation parts isOperator spellsLeft spellsRight⟩
  · cases h
termination_by sizeOf data
decreasing_by
  all_goals
    have smallerLeft := Data.sizeOf_lt_of_part? parts.parts.2.1
    have smallerRight := Data.sizeOf_lt_of_part? parts.parts.2.2
    subst_vars
    simp only [Data.record.sizeOf_spec, List.cons.sizeOf_spec, Prod.mk.sizeOf_spec]
    omega

/-- Data of the right shape are read as the draft that they spell, if at all. -/
theorem draft_of_decode {data : Data} {draft : Draft} {e : Expr} (spells : data.Spells draft)
    (h : decode data = .ok e) : e.draft = draft.unsigned := by
  induction spells generalizing e with
  | number isNumber =>
    rw [decode] at h
    obtain ⟨n, reads, rfl⟩ := Data.map_eq_ok.mp h
    obtain ⟨_, isNumber', value⟩ := Number.decode_eq_ok.mp reads
    obtain rfl := isNumber.unique isNumber'
    exact draft_eq_number.mpr ⟨n, rfl, value⟩
  | var name =>
    rw [decode] at h
    obtain ⟨v, reads, rfl⟩ := Data.map_eq_ok.mp h
    obtain ⟨rfl⟩ := Variable.decode_eq_ok.mp reads
    rfl
  | operation parts isOperator _ _ ihLeft ihRight =>
    rw [decode, decodeOperation_eq_ok] at h
    obtain ⟨_, _, _, _, first, second, parts', isOperator', readsLeft, readsRight, rfl⟩ := h
    obtain ⟨rfl, rfl, rfl⟩ := parts.unique parts'
    obtain rfl := isOperator.unique isOperator'
    exact draft_eq_operation.mpr ⟨first, second, rfl, ihLeft readsLeft, ihRight readsRight⟩

theorem decode_of_spells {data : Data} {draft : Draft} {e : Expr} (spells : data.Spells draft)
    (same : e.draft = draft.unsigned) : decode data = .ok e := by
  induction spells generalizing e with
  | number isNumber =>
    obtain ⟨n, rfl, value⟩ := draft_eq_number.mp same
    rw [decode, Number.decode_eq_ok.mpr ⟨_, isNumber, value⟩]
    rfl
  | var name =>
    obtain ⟨v, rfl, rfl⟩ := draft_eq_var.mp same
    rw [decode, Variable.decode_eq_ok.mpr rfl]
    rfl
  | operation parts isOperator _ _ ihLeft ihRight =>
    obtain ⟨first, second, rfl, sameLeft, sameRight⟩ := draft_eq_operation.mp same
    rw [decode, decodeOperation_eq_ok]
    exact ⟨_, _, _, _, _, _, parts, isOperator, ihLeft sameLeft, ihRight sameRight, rfl⟩

theorem spells_encode (e : Expr) : e.encode.Spells e.draft := by
  induction e with
  | atom value =>
    cases value with
    | number n => exact .number (.real n.value)
    | var v => exact .var v.name
  | operation op left right ihLeft ihRight =>
    exact .operation (.record rfl rfl rfl) (.text op) ihLeft ihRight

theorem decode_encode (e : Expr) : decode e.encode = .ok e :=
  decode_of_spells e.spells_encode e.unsigned_draft.symm

/-- Every expression is read back from the data that store it. Data of the right shape are read
exactly if all leaves pass, and then as the tree that they spell, with no sign on any number. Data of
any other shape are not read. -/
theorem decode_outcome :
    (∀ e, decode (encode e) = .ok e) ∧
      (∀ data draft, data.Spells draft →
        ((∃ e, decode data = .ok e) ↔ draft.Sound) ∧
          ∀ e, decode data = .ok e →
            e.draft = draft.unsigned ∧ ∀ x ∈ e.draft.numbers, x.isSigned = false) ∧
      ∀ data, (∃ e, decode data = .ok e) → ∃ draft, data.Spells draft := by
  refine ⟨decode_encode, fun data draft spells => ⟨?_, fun e reads => ?_⟩, ?_⟩
  · rw [← exists_draft_eq_unsigned_iff]
    exact ⟨fun ⟨e, reads⟩ => ⟨e, draft_of_decode spells reads⟩,
      fun ⟨e, same⟩ => ⟨e, decode_of_spells spells same⟩⟩
  · exact ⟨draft_of_decode spells reads, fun _ => isSigned_of_mem_numbers_draft⟩
  · rintro data ⟨e, reads⟩
    exact exists_spells_of_decode reads

/-- A list of parts and a record with its keys in another order and one too many: `-0.0 * (2 + x)`. -/
theorem decode_outcome_product :
    let data : Data := .record [("Operation", .list [.text "Mul",
      .record [("Number", .real ⟨0x8000000000000000⟩)],
      .record [("Operation", .record [("right", .record [("Variable", .text "x")]), ("note", .null),
        ("op", .record [("Add", .null)]), ("left", .record [("Number", .integer 2)])])]])]
    let draft : Draft := .operation .mul (.number ⟨0x8000000000000000⟩)
      (.operation .add (.number (.ofInt 2)) (.var "x"))
    data.Spells draft ∧ draft.Sound ∧
      ∃ e, decode data = .ok e ∧ e.draft.numbers = [.zero, .ofInt 2] := by
  intro data draft
  have spells : data.Spells draft :=
    .operation (.list _ _ _) (.text .mul) (.number (.real _))
      (.operation (.record rfl rfl rfl) (.record .add) (.number (.integer 2)) (.var "x"))
  have sound : draft.Sound := by
    have passes {x : Double} (finite : x.isFinite = true) (notNegative : x.isNegative = false) :
        x.isFinite = true ∧ 0 ≤ x.toRat := by
      refine ⟨finite, not_lt.mp fun below => ?_⟩
      rw [(Double.isNegative_iff finite).mpr below] at notNegative
      contradiction
    refine ⟨List.forall_mem_cons.mpr ⟨passes (by decide) (by decide),
      List.forall_mem_singleton.mpr (passes (by decide +kernel) (by decide +kernel))⟩, ?_⟩
    exact List.forall_mem_singleton.mpr ⟨by decide, List.forall_mem_singleton.mpr (by decide)⟩
  obtain ⟨reads, made⟩ := decode_outcome.2.1 data draft spells
  obtain ⟨e, read⟩ := reads.mpr sound
  refine ⟨spells, sound, e, read, ?_⟩
  rw [(made e read).1]
  decide +kernel

end Expr

end SymbolicCalculus
