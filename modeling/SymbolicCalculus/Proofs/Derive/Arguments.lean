import Mathlib.Data.List.Nodup
import SymbolicCalculus.Derive.Expansion

/-!
The arguments of an attribute are items, each a tag with its expression, with a comma between each
two. Here is which of them are accepted, and what is wrong first with those that are not, however
expressions are read.
-/

set_option autoImplicit false

namespace SymbolicCalculus

namespace Derive

theorem Tag.ofName?_eq_some {text : String} {tag : Tag} :
    Tag.ofName? text = some tag ↔ tag.name = text := by
  constructor
  · intro found
    exact eq_of_beq (@List.find?_some Tag (·.name == text) _ _ found)
  · rintro rfl
    cases tag <;> rfl

theorem Tag.name_injective : Function.Injective Tag.name := by
  intro first second same
  have found : Tag.ofName? second.name = some first := Tag.ofName?_eq_some.mpr same
  exact Option.some.inj (found.symm.trans (Tag.ofName?_eq_some.mpr rfl))

/-- A tag with what was read as its expression. -/
@[ext]
structure Item where
  name : String
  words : List String
  /-- Was the expression read down into all groups? -/
  complete : Bool
  deriving DecidableEq, Repr

/-- At the start of the pieces there are a name and an equals sign. -/
def Names (name : String) (pieces behind : List Piece) : Prop :=
  isName name = true ∧ ∃ joint, pieces = .word name :: .mark '=' joint :: behind

def Comma (pieces behind : List Piece) : Prop := ∃ joint, pieces = .mark ',' joint :: behind

/-- The item is at the start of the pieces, with `rest` behind it. -/
def Item.Stands (item : Item) (reader : ExpressionReader) (pieces rest : List Piece) : Prop :=
  ∃ behind, Names item.name pieces behind ∧ reader.Reads behind item.words item.complete rest

/-- The pieces start with the items, each with one comma behind it. -/
inductive Leads (reader : ExpressionReader) : List Item → List Piece → List Piece → Prop where
  | nil (pieces : List Piece) : Leads reader [] pieces pieces
  | cons {item : Item} {items : List Item} {pieces rest behind last : List Piece} :
      item.Stands reader pieces rest → Comma rest behind → Leads reader items behind last →
      Leads reader (item :: items) pieces last

/-- The pieces are the items, with a comma between each two and perhaps one behind the last. -/
inductive Lists (reader : ExpressionReader) : List Item → List Piece → Prop where
  | nil : Lists reader [] []
  | last {item : Item} {pieces : List Piece} :
      item.Stands reader pieces [] → Lists reader [item] pieces
  | cons {item : Item} {items : List Item} {pieces rest behind : List Piece} :
      item.Stands reader pieces rest → Comma rest behind → Lists reader items behind →
      Lists reader (item :: items) pieces

/-- Each name is that of a tag, and no two are the same. -/
structure Sound (items : List Item) : Prop where
  known : ∀ item ∈ items, ∃ tag : Tag, tag.name = item.name
  distinct : (items.map Item.name).Nodup

/-- What is wrong at the start of the pieces, behind items with nothing wrong. A tag is judged by
its name, whatever is behind the equals sign. -/
inductive Offends (reader : ExpressionReader) (before : List Item) : List Piece → Error → Prop where
  | nameless {pieces : List Piece} :
      pieces ≠ [] → (∀ name behind, ¬Names name pieces behind) →
      Offends reader before pieces .malformed
  | unknown {name : String} {pieces behind : List Piece} :
      Names name pieces behind → (∀ tag : Tag, tag.name ≠ name) →
      Offends reader before pieces (.unknownTag name)
  | duplicate {name : String} {pieces behind : List Piece} :
      Names name pieces behind → name ∈ before.map Item.name →
      Offends reader before pieces (.duplicateTag name)
  | wordless {tag : Tag} {pieces behind : List Piece} :
      Names tag.name pieces behind → tag.name ∉ before.map Item.name →
      reader behind = none → Offends reader before pieces .malformed
  | unseparated {item : Item} {pieces rest : List Piece} :
      item.Stands reader pieces rest → Sound (before ++ [item]) → rest ≠ [] →
      (∀ behind, ¬Comma rest behind) → Offends reader before pieces .malformed

/-- The pieces are refused for what is wrong first. What was left over in the group of an expression
is noticed behind all items, and that there is no message behind that. -/
inductive Refuses (reader : ExpressionReader) (pieces : List Piece) : Error → Prop where
  | offence {items : List Item} {rest : List Piece} {error : Error} :
      Leads reader items pieces rest → Sound items → Offends reader items rest error →
      Refuses reader pieces error
  | leftover {items : List Item} :
      Lists reader items pieces → Sound items → (∃ item ∈ items, item.complete = false) →
      Refuses reader pieces .malformed
  | messageless {items : List Item} :
      Lists reader items pieces → Sound items → (∀ item ∈ items, item.complete = true) →
      Tag.message.name ∉ items.map Item.name → Refuses reader pieces .missingMessage

/-- The pieces list items with nothing wrong, one of them with the message. -/
structure Accepts (reader : ExpressionReader) (pieces : List Piece) (items : List Item) : Prop where
  lists : Lists reader items pieces
  sound : Sound items
  complete : ∀ item ∈ items, item.complete = true
  message : Tag.message.name ∈ items.map Item.name

/-- The words that are found for a tag are those of the item with its name. -/
def Assigns (find : Tag → Option (List String)) (items : List Item) : Prop :=
  ∀ tag words, find tag = some words ↔ ∃ item ∈ items, item.name = tag.name ∧ item.words = words

/-! ## Items with nothing wrong -/

namespace Sound

variable {before items : List Item} {item : Item}

theorem nil : Sound [] := ⟨by simp, List.nodup_nil⟩

/-- One more item with a tag that is new. -/
theorem concat (sound : Sound before) {tag : Tag} (named : tag.name = item.name)
    (fresh : item.name ∉ before.map Item.name) : Sound (before ++ [item]) where
  known other member := by
    rcases List.mem_append.mp member with old | new
    · exact sound.known other old
    · obtain rfl := List.mem_singleton.mp new
      exact ⟨tag, named⟩
  distinct := by
    rw [List.map_append, List.nodup_append']
    exact ⟨sound.distinct, List.nodup_singleton item.name, by simpa using fresh⟩

/-- The next item has a tag, which is new. -/
theorem next (sound : Sound (before ++ item :: items)) :
    (∃ tag : Tag, tag.name = item.name) ∧ item.name ∉ before.map Item.name := by
  refine ⟨sound.known item (List.mem_append_right before List.mem_cons_self), fun old => ?_⟩
  have disjoint := (List.nodup_append'.mp (List.map_append ▸ sound.distinct)).2.2
  exact disjoint old List.mem_cons_self

end Sound

namespace Assigns

theorem empty : Assigns Tags.empty.get? [] := by
  intro tag words
  cases tag <;> simp [Tags.empty, Tags.get?]

theorem eq_none_iff {find : Tag → Option (List String)} {items : List Item}
    (assigns : Assigns find items) {tag : Tag} :
    find tag = none ↔ tag.name ∉ items.map Item.name := by
  rw [Option.eq_none_iff_forall_ne_some, List.mem_map]
  constructor
  · rintro nothing ⟨item, member, named⟩
    exact nothing item.words ((assigns tag item.words).mpr ⟨item, member, named, rfl⟩)
  · intro absent words found
    obtain ⟨item, member, named, _⟩ := (assigns tag words).mp found
    exact absent ⟨item, member, named⟩

theorem set {tags : Tags} {before : List Item} {item : Item} {tag : Tag}
    (assigns : Assigns tags.get? before) (named : tag.name = item.name)
    (fresh : item.name ∉ before.map Item.name) :
    Assigns (tags.set tag item.words).get? (before ++ [item]) := by
  intro other words
  by_cases same : other = tag
  · subst same
    rw [Tags.get?_set_self]
    constructor
    · rintro ⟨⟩
      exact ⟨item, List.mem_append_right before List.mem_cons_self, named.symm, rfl⟩
    · rintro ⟨found, member, sameName, rfl⟩
      rcases List.mem_append.mp member with old | new
      · exact absurd (List.mem_map.mpr ⟨found, old, sameName.trans named⟩) fresh
      · rw [List.mem_singleton.mp new]
  · rw [Tags.get?_set_of_ne tags item.words same, assigns other words]
    constructor
    · rintro ⟨found, member, rest⟩
      exact ⟨found, List.mem_append_left [item] member, rest⟩
    · rintro ⟨found, member, sameName, rfl⟩
      rcases List.mem_append.mp member with old | new
      · exact ⟨found, old, sameName, rfl⟩
      · obtain rfl := List.mem_singleton.mp new
        exact absurd (Tag.name_injective (sameName.symm.trans named.symm)) same

end Assigns

/-! ## Reading -/

section

variable {reader : ExpressionReader} {tags : Tags} {complete : Bool} {tag : Tag} {item : Item}
  {name : String} {pieces behind rest : List Piece}

/-- The pieces behind an item decide how reading goes on. -/
theorem readTags_of_stands (stands : item.Stands reader pieces rest)
    (named : tag.name = item.name) (fresh : tags.get? tag = none) :
    readTags reader tags complete pieces =
      match rest with
      | [] =>
        if complete && item.complete then .ok (tags.set tag item.words) else .error .malformed
      | .mark separator _ :: next =>
        if separator = ',' then
          readTags reader (tags.set tag item.words) (complete && item.complete) next
        else .error .malformed
      | _ => .error .malformed := by
  obtain ⟨behind, ⟨isName, joint, rfl⟩, inside, read⟩ := stands
  rw [readTags]
  simp only [isName, Tag.ofName?_eq_some.mpr named, fresh, read]
  cases rest with
  | nil => simp
  | cons piece next => cases piece <;> simp

theorem readTags_of_unknown (names : Names name pieces behind)
    (unknown : ∀ tag : Tag, tag.name ≠ name) :
    readTags reader tags complete pieces = .error (.unknownTag name) := by
  obtain ⟨isName, joint, rfl⟩ := names
  have noTag : Tag.ofName? name = none :=
    Option.eq_none_iff_forall_ne_some.mpr fun tag found =>
      unknown tag (Tag.ofName?_eq_some.mp found)
  rw [readTags]
  simp [isName, noTag]

theorem readTags_of_duplicate (names : Names tag.name pieces behind)
    (given : (tags.get? tag).isSome = true) :
    readTags reader tags complete pieces = .error (.duplicateTag tag.name) := by
  obtain ⟨isName, joint, rfl⟩ := names
  rw [readTags]
  simp [isName, Tag.ofName?_eq_some.mpr rfl, given]

theorem readTags_of_wordless (names : Names tag.name pieces behind) (fresh : tags.get? tag = none)
    (unread : reader behind = none) :
    readTags reader tags complete pieces = .error .malformed := by
  obtain ⟨isName, joint, rfl⟩ := names
  rw [readTags]
  simp [isName, Tag.ofName?_eq_some.mpr rfl, fresh, unread]

theorem readTags_of_nameless (filled : pieces ≠ [])
    (nameless : ∀ name behind, ¬Names name pieces behind) :
    readTags reader tags complete pieces = .error .malformed := by
  unfold readTags
  split
  · exact absurd rfl filled
  · split
    · rfl
    · rename_i name sign joint behind test
      simp only [Bool.or_eq_true, decide_eq_true_eq, Bool.not_eq_true', not_or, not_not,
        Bool.not_eq_false] at test
      exact absurd ⟨test.2, joint, by rw [test.1]⟩ (nameless name behind)
  · rfl

theorem Comma.length_lt (comma : Comma pieces behind) : behind.length < pieces.length := by
  obtain ⟨joint, rfl⟩ := comma
  exact Nat.lt_succ_self _

theorem Comma.unique (comma : Comma pieces behind) (again : Comma pieces rest) : behind = rest := by
  obtain ⟨joint, rfl⟩ := comma
  obtain ⟨_, same⟩ := again
  exact (List.cons.inj same).2

theorem Item.Stands.length_lt (stands : item.Stands reader pieces rest) :
    rest.length < pieces.length := by
  obtain ⟨behind, ⟨_, joint, rfl⟩, inside, _⟩ := stands
  exact Nat.lt_succ_of_lt (Nat.lt_succ_of_lt inside)

theorem Item.Stands.unique {other : Item} {last : List Piece}
    (stands : item.Stands reader pieces rest) (others : other.Stands reader pieces last) :
    item = other ∧ rest = last := by
  obtain ⟨behind, ⟨_, _, rfl⟩, _, read⟩ := stands
  obtain ⟨_, ⟨_, _, same⟩, _, again⟩ := others
  simp only [List.cons.injEq, Piece.word.injEq] at same
  obtain ⟨name, _, rfl⟩ := same
  rw [read] at again
  simp only [Option.some.injEq, Prod.mk.injEq, Subtype.mk.injEq] at again
  obtain ⟨words, complete, last⟩ := again
  exact ⟨Item.ext name words complete, last⟩

theorem Offends.readTags {before : List Item} {error : Error}
    (offends : Offends reader before pieces error) (sound : Sound before)
    (assigns : Assigns tags.get? before) :
    Derive.readTags reader tags complete pieces = .error error := by
  cases offends with
  | nameless filled nameless => exact readTags_of_nameless filled nameless
  | unknown names unknown => exact readTags_of_unknown names unknown
  | duplicate names old =>
    obtain ⟨item, member, rfl⟩ := List.mem_map.mp old
    obtain ⟨tag, named⟩ := sound.known item member
    rw [← named] at names ⊢
    refine readTags_of_duplicate names (Option.isSome_iff_ne_none.mpr fun absent => ?_)
    exact assigns.eq_none_iff.mp absent (named ▸ old)
  | wordless names fresh unread =>
    exact readTags_of_wordless names (assigns.eq_none_iff.mpr fresh) unread
  | unseparated stands sound filled apart =>
    obtain ⟨⟨tag, named⟩, fresh⟩ := Sound.next sound
    rw [readTags_of_stands stands named (assigns.eq_none_iff.mpr (named ▸ fresh))]
    split
    · exact absurd rfl filled
    · rename_i separator joint next _
      exact if_neg fun comma => apart next ⟨joint, by rw [comma]⟩
    · rfl

section

variable {before items : List Item}

/-- Behind an item and a comma, reading goes on with the words of the item found. -/
theorem exists_readTags_of_comma (stands : item.Stands reader pieces rest)
    (comma : Comma rest behind) (assigns : Assigns tags.get? before)
    (sound : Sound (before ++ item :: items)) :
    ∃ next : Tags, Assigns next.get? (before ++ [item]) ∧ ∀ complete,
      readTags reader tags complete pieces =
        readTags reader next (complete && item.complete) behind := by
  obtain ⟨⟨tag, named⟩, fresh⟩ := sound.next
  obtain ⟨joint, rfl⟩ := comma
  refine ⟨tags.set tag item.words, assigns.set named fresh, fun complete => ?_⟩
  rw [readTags_of_stands stands named (assigns.eq_none_iff.mpr (named ▸ fresh))]
  exact if_pos rfl

theorem Leads.readTags (leads : Leads reader items pieces rest) (assigns : Assigns tags.get? before)
    (sound : Sound (before ++ items)) :
    ∃ after : Tags, Assigns after.get? (before ++ items) ∧ ∀ complete,
      Derive.readTags reader tags complete pieces =
        Derive.readTags reader after (complete && items.all (·.complete)) rest := by
  induction leads generalizing before tags with
  | nil pieces =>
    refine ⟨tags, by rwa [List.append_nil], fun complete => ?_⟩
    rw [List.all_nil, Bool.and_true]
  | cons stands comma _ ih =>
    obtain ⟨next, assigns, goes⟩ := exists_readTags_of_comma stands comma assigns sound
    rw [List.append_cons] at sound ⊢
    obtain ⟨after, assigns, read⟩ := ih assigns sound
    refine ⟨after, assigns, fun complete => ?_⟩
    rw [goes, read, List.all_cons, Bool.and_assoc]

/-- What reading gives for listed items depends on whether something is left over in a group. -/
theorem Lists.readTags (lists : Lists reader items pieces) (assigns : Assigns tags.get? before)
    (sound : Sound (before ++ items)) :
    ∃ after : Tags, Assigns after.get? (before ++ items) ∧ ∀ complete,
      Derive.readTags reader tags complete pieces =
        if complete && items.all (·.complete) then .ok after else .error .malformed := by
  induction lists generalizing before tags with
  | nil =>
    refine ⟨tags, by rwa [List.append_nil], fun complete => ?_⟩
    rw [Derive.readTags, List.all_nil, Bool.and_true]
  | @last item _ stands =>
    obtain ⟨⟨tag, named⟩, fresh⟩ := sound.next
    refine ⟨tags.set tag item.words, assigns.set named fresh, fun complete => ?_⟩
    rw [readTags_of_stands stands named (assigns.eq_none_iff.mpr (named ▸ fresh)), List.all_cons,
      List.all_nil, Bool.and_true]
  | cons stands comma _ ih =>
    obtain ⟨next, assigns, goes⟩ := exists_readTags_of_comma stands comma assigns sound
    rw [List.append_cons] at sound ⊢
    obtain ⟨after, assigns, read⟩ := ih assigns sound
    refine ⟨after, assigns, fun complete => ?_⟩
    rw [goes, read, List.all_cons, Bool.and_assoc]

theorem Lists.unique {others : List Item} (lists : Lists reader items pieces)
    (again : Lists reader others pieces) : items = others := by
  induction lists generalizing others with
  | nil =>
    cases again with
    | nil => rfl
    | last stands | cons stands => exact absurd stands.length_lt (Nat.not_lt_zero _)
  | last stands =>
    cases again with
    | nil => exact absurd stands.length_lt (Nat.not_lt_zero _)
    | last second => rw [(stands.unique second).1]
    | cons second comma =>
      obtain ⟨_, rfl⟩ := stands.unique second
      exact absurd comma.length_lt (Nat.not_lt_zero _)
  | cons stands comma _ ih =>
    cases again with
    | nil => exact absurd stands.length_lt (Nat.not_lt_zero _)
    | last second =>
      obtain ⟨_, rfl⟩ := stands.unique second
      exact absurd comma.length_lt (Nat.not_lt_zero _)
    | cons second other more =>
      obtain ⟨rfl, rfl⟩ := stands.unique second
      obtain rfl := comma.unique other
      rw [ih more]

end

end

/-! ## Each list of pieces -/

/-- Pieces list items whose tags are right, or they are wrong behind such items. -/
theorem lists_or_offends (reader : ExpressionReader) {before : List Item} (pieces : List Piece)
    (sound : Sound before) :
    (∃ items, Lists reader items pieces ∧ Sound (before ++ items)) ∨
      ∃ items rest error, Leads reader items pieces rest ∧ Sound (before ++ items) ∧
        Offends reader (before ++ items) rest error := by
  have here {error : Error} (offends : Offends reader before pieces error) :
      ∃ items rest error, Leads reader items pieces rest ∧ Sound (before ++ items) ∧
        Offends reader (before ++ items) rest error :=
    ⟨[], pieces, error, .nil pieces, by rwa [List.append_nil], by rwa [List.append_nil]⟩
  by_cases done : pieces = []
  · exact .inl ⟨[], done ▸ .nil, by rwa [List.append_nil]⟩
  by_cases named : ∃ name behind, Names name pieces behind
  case neg =>
    exact .inr (here (.nameless done fun name behind names => named ⟨name, behind, names⟩))
  obtain ⟨name, behind, names⟩ := named
  by_cases known : ∃ tag : Tag, tag.name = name
  case neg => exact .inr (here (.unknown names fun tag same => known ⟨tag, same⟩))
  obtain ⟨tag, rfl⟩ := known
  by_cases old : tag.name ∈ before.map Item.name
  · exact .inr (here (.duplicate names old))
  cases read : reader behind with
  | none => exact .inr (here (.wordless names old read))
  | some found =>
    obtain ⟨words, complete, rest, inside⟩ := found
    have stands : (⟨tag.name, words, complete⟩ : Item).Stands reader pieces rest :=
      ⟨behind, names, inside, read⟩
    have longer := @Sound.concat before ⟨tag.name, words, complete⟩ sound tag rfl old
    by_cases last : rest = []
    · exact .inl ⟨_, .last (last ▸ stands), longer⟩
    by_cases comma : ∃ next, Comma rest next
    case neg =>
      exact .inr (here (.unseparated stands longer last fun next found => comma ⟨next, found⟩))
    obtain ⟨next, comma⟩ := comma
    have shorter : next.length < pieces.length := Nat.lt_trans comma.length_lt stands.length_lt
    rcases lists_or_offends reader next longer with ⟨items, lists, sound⟩ | offence
    · exact .inl ⟨_, .cons stands comma lists, by rwa [List.append_cons]⟩
    · obtain ⟨items, rest, error, leads, sound, offends⟩ := offence
      rw [← List.append_cons] at sound offends
      exact .inr ⟨_, rest, error, .cons stands comma leads, sound, offends⟩
termination_by pieces.length

namespace Arguments

variable {reader : ExpressionReader} {pieces : List Piece}

theorem ofPieces_of_accepts {items : List Item} (accepts : Accepts reader pieces items) :
    ∃ arguments, ofPieces reader pieces = .ok arguments ∧ Assigns arguments.get? items := by
  obtain ⟨tags, assigns, read⟩ := accepts.lists.readTags Assigns.empty accepts.sound
  have all : items.all (·.complete) = true := List.all_eq_true.mpr accepts.complete
  have given : tags.get? .message ≠ none := fun absent =>
    assigns.eq_none_iff.mp absent accepts.message
  obtain ⟨message, given⟩ := Option.ne_none_iff_exists'.mp given
  change tags.message = some message at given
  refine ⟨⟨message, tags.labels, tags.help⟩, ?_, ?_⟩
  · rw [ofPieces, read, Bool.true_and, if_pos all]
    simp only [given]
  · have same : get? ⟨message, tags.labels, tags.help⟩ = tags.get? := by
      funext tag
      cases tag <;> simp [get?, Tags.get?, given]
    rw [same]
    exact assigns

theorem ofPieces_of_refuses {error : Error} (refuses : Refuses reader pieces error) :
    ofPieces reader pieces = .error error := by
  cases refuses with
  | offence leads sound offends =>
    obtain ⟨tags, assigns, read⟩ := leads.readTags Assigns.empty sound
    rw [ofPieces, read, offends.readTags sound assigns]
  | @leftover items lists sound leftover =>
    obtain ⟨tags, _, read⟩ := lists.readTags Assigns.empty sound
    obtain ⟨item, member, left⟩ := leftover
    have notAll : items.all (·.complete) = false :=
      List.all_eq_false.mpr ⟨item, member, Bool.eq_false_iff.mp left⟩
    rw [ofPieces, read, notAll]
    rfl
  | messageless lists sound complete missing =>
    obtain ⟨tags, assigns, read⟩ := lists.readTags Assigns.empty sound
    have absent : tags.message = none := assigns.eq_none_iff.mpr missing
    rw [ofPieces, read, Bool.true_and, if_pos (List.all_eq_true.mpr complete)]
    simp only [absent]

theorem accepts_or_refuses (reader : ExpressionReader) (pieces : List Piece) :
    (∃ items, Accepts reader pieces items) ∨ ∃ error, Refuses reader pieces error := by
  rcases lists_or_offends reader pieces .nil with ⟨items, lists, sound⟩ | offence
  · by_cases complete : ∀ item ∈ items, item.complete = true
    case neg =>
      obtain ⟨item, member, left⟩ : ∃ item ∈ items, item.complete ≠ true := by
        simpa using complete
      exact .inr ⟨_, .leftover lists sound ⟨item, member, Bool.eq_false_iff.mpr left⟩⟩
    by_cases message : Tag.message.name ∈ items.map Item.name
    · exact .inl ⟨items, lists, sound, complete, message⟩
    · exact .inr ⟨_, .messageless lists sound complete message⟩
  · obtain ⟨items, rest, error, leads, sound, offends⟩ := offence
    exact .inr ⟨error, .offence leads sound offends⟩

theorem exists_accepts {arguments : Arguments} (read : ofPieces reader pieces = .ok arguments) :
    ∃ items, Accepts reader pieces items ∧ Assigns arguments.get? items := by
  rcases accepts_or_refuses reader pieces with ⟨items, accepts⟩ | ⟨error, refuses⟩
  · obtain ⟨same, again, assigns⟩ := ofPieces_of_accepts accepts
    obtain rfl := Except.ok.inj (read.symm.trans again)
    exact ⟨items, accepts, assigns⟩
  · rw [ofPieces_of_refuses refuses] at read
    cases read

theorem ofPieces_eq_error {error : Error} :
    ofPieces reader pieces = .error error ↔ Refuses reader pieces error := by
  refine ⟨fun read => ?_, ofPieces_of_refuses⟩
  rcases accepts_or_refuses reader pieces with ⟨items, accepts⟩ | ⟨other, refuses⟩
  · obtain ⟨arguments, again, _⟩ := ofPieces_of_accepts accepts
    rw [again] at read
    cases read
  · obtain rfl := Except.error.inj (read.symm.trans (ofPieces_of_refuses refuses))
    exact refuses

end Arguments

end Derive

end SymbolicCalculus
