import Mathlib.Tactic.Choose
import SymbolicCalculus.Proofs.Derive.Arguments

/-!
Arguments that are written down item by item. With a reader of expressions that stops at commas,
all accepted arguments are, and the order of the items makes no difference to what is read and
generated.
-/

set_option autoImplicit false

namespace SymbolicCalculus

namespace Derive

/-- A tag and the pieces of its expression, as they are written. -/
structure Entry where
  name : String
  /-- Is another mark right behind the equals sign? -/
  joint : Bool
  expression : List Piece
  /-- Is another mark right behind the comma, if there is one? -/
  commaJoint : Bool

def Entry.pieces (entry : Entry) : List Piece :=
  .word entry.name :: .mark '=' entry.joint :: entry.expression

/-- The expression as a whole is read as these words. -/
def Entry.Spells (entry : Entry) (reader : ExpressionReader) (words : List String) : Prop :=
  isName entry.name = true ∧ reader.Reads entry.expression words true []

/-- Entries with a comma between each two, and with `trailing` one behind the last. -/
def writeEntries (trailing : Bool) : List Entry → List Piece
  | [] => []
  | [entry] => entry.pieces ++ if trailing then [.mark ',' entry.commaJoint] else []
  | entry :: entries =>
    entry.pieces ++ .mark ',' entry.commaJoint :: writeEntries trailing entries

/-- The declaration with one more attribute, which has these arguments, and others behind it. -/
def Declaration.addArguments (declaration : Declaration) (pieces : List Piece)
    (behind : List Attribute) : Declaration :=
  { declaration with
    attributes := declaration.attributes ++ ⟨some "error", .list pieces, true⟩ :: behind }

/-! ## Readers that stop at commas -/

namespace ExpressionReader

variable {whole? : List Piece → Option (List String × Bool)} {words : List String}
  {complete joint : Bool} {pieces rest behind : List Piece}

theorem reads_ofWhole :
    (ofWhole whole?).Reads pieces words complete rest ↔
      shortestFront? whole? [] pieces = some (words, complete, rest) ∧
        rest.length < pieces.length := by
  unfold Reads ofWhole
  constructor
  · rintro ⟨inside, read⟩
    split at read
    · rename_i found
      split at read <;> cases read
      exact ⟨found, inside⟩
    · cases read
  · rintro ⟨found, inside⟩
    refine ⟨inside, ?_⟩
    rw [found]
    exact dif_pos inside

/-- The front up to a comma does not depend on what is behind it. -/
theorem shortestFront?_eq_comma {passed : List Piece} :
    shortestFront? whole? passed pieces = some (words, complete, .mark ',' joint :: behind) ↔
      ∃ expression, pieces = expression ++ .mark ',' joint :: behind ∧
        shortestFront? whole? passed expression = some (words, complete, []) := by
  fun_induction shortestFront? whole? passed pieces with
  | case1 passed => simp
  | case2 passed other pieces found all whole =>
    constructor
    · rintro ⟨⟩
      exact ⟨[], rfl, by rw [shortestFront?, whole]; rfl⟩
    · rintro ⟨_ | ⟨piece, expression⟩, split, read⟩
      · cases split
        rw [shortestFront?, whole] at read
        cases read
        rfl
      · cases split
        rw [shortestFront?, whole] at read
        cases read
  | case3 passed other pieces whole ih =>
    rw [ih]
    constructor
    · rintro ⟨expression, rfl, read⟩
      exact ⟨.mark ',' other :: expression, rfl, by rwa [shortestFront?, whole]⟩
    · rintro ⟨_ | ⟨piece, expression⟩, split, read⟩
      · rw [shortestFront?, whole] at read
        cases read
      · cases split
        rw [shortestFront?, whole] at read
        exact ⟨expression, rfl, read⟩
  | case4 passed piece pieces apart ih =>
    rw [ih]
    constructor
    · rintro ⟨expression, rfl, read⟩
      exact ⟨piece :: expression, rfl, by rwa [shortestFront?_cons apart]⟩
    · rintro ⟨_ | ⟨first, expression⟩, split, read⟩
      · cases split
        exact absurd rfl (apart joint)
      · cases split
        rw [shortestFront?_cons apart] at read
        exact ⟨expression, rfl, read⟩

theorem stopsAtComma_ofWhole : (ofWhole whole?).StopsAtComma := by
  intro pieces words complete joint behind
  rw [reads_ofWhole, shortestFront?_eq_comma]
  constructor
  · rintro ⟨⟨expression, rfl, found⟩, inside⟩
    refine ⟨expression, rfl, reads_ofWhole.mpr ⟨found, ?_⟩⟩
    simpa using inside
  · rintro ⟨expression, rfl, read⟩
    obtain ⟨found, inside⟩ := reads_ofWhole.mp read
    exact ⟨⟨expression, rfl, found⟩, by simpa using inside⟩

end ExpressionReader

/-! ## Entries -/

section

variable {reader : ExpressionReader} {items others : List Item} {pieces written : List Piece}

theorem Item.stands_of_spells {entry : Entry} {words : List String}
    (spells : entry.Spells reader words) :
    Item.Stands ⟨entry.name, words, true⟩ reader entry.pieces [] :=
  ⟨entry.expression, ⟨spells.1, entry.joint, rfl⟩, spells.2⟩

theorem Item.stands_of_spells_comma (stops : reader.StopsAtComma) {entry : Entry}
    {words : List String} (spells : entry.Spells reader words) (behind : List Piece) :
    Item.Stands ⟨entry.name, words, true⟩ reader
      (entry.pieces ++ .mark ',' entry.commaJoint :: behind)
      (.mark ',' entry.commaJoint :: behind) :=
  ⟨_, ⟨spells.1, entry.joint, rfl⟩, (stops ..).mpr ⟨entry.expression, rfl, spells.2⟩⟩

theorem lists_writeEntries (stops : reader.StopsAtComma) {entries : List Entry}
    {words : Entry → List String} (trailing : Bool)
    (spells : ∀ entry ∈ entries, entry.Spells reader (words entry)) :
    Lists reader (entries.map fun entry => ⟨entry.name, words entry, true⟩)
      (writeEntries trailing entries) := by
  induction entries with
  | nil => exact .nil
  | cons entry entries ih =>
    have first := spells entry List.mem_cons_self
    have behind := ih fun other member => spells other (List.mem_cons_of_mem entry member)
    cases entries with
    | cons next more =>
      exact .cons (Item.stands_of_spells_comma stops first _) ⟨entry.commaJoint, rfl⟩ behind
    | nil =>
      cases trailing with
      | true =>
        exact .cons (Item.stands_of_spells_comma stops first []) ⟨entry.commaJoint, rfl⟩ .nil
      | false =>
        rw [writeEntries, if_neg Bool.false_ne_true, List.append_nil]
        exact .last (Item.stands_of_spells first)

/-- Listed items are written as entries. -/
theorem exists_writeEntries (stops : reader.StopsAtComma) (lists : Lists reader items pieces)
    (complete : ∀ item ∈ items, item.complete = true) :
    ∃ trailing entries, pieces = writeEntries trailing entries ∧
      ∀ entry ∈ entries, ∃ words, entry.Spells reader words := by
  induction lists with
  | nil => exact ⟨false, [], rfl, List.forall_mem_nil _⟩
  | @last item pieces stands =>
    obtain ⟨behind, ⟨named, joint, rfl⟩, read⟩ := stands
    rw [complete item List.mem_cons_self] at read
    refine ⟨false, [⟨item.name, joint, behind, false⟩], by simp [writeEntries, Entry.pieces], ?_⟩
    exact List.forall_mem_singleton.mpr ⟨item.words, named, read⟩
  | @cons item items pieces rest behind stands comma _ ih =>
    obtain ⟨front, ⟨named, joint, rfl⟩, read⟩ := stands
    obtain ⟨commaJoint, rfl⟩ := comma
    obtain ⟨expression, rfl, whole⟩ := (stops ..).mp read
    rw [complete item List.mem_cons_self] at whole
    obtain ⟨trailing, entries, rfl, spells⟩ := ih fun other member =>
      complete other (List.mem_cons_of_mem item member)
    have first : (⟨item.name, joint, expression, commaJoint⟩ : Entry).Spells reader item.words :=
      ⟨named, whole⟩
    have all := List.forall_mem_cons.mpr ⟨⟨item.words, first⟩, spells⟩
    cases entries with
    | nil => exact ⟨true, _, rfl, all⟩
    | cons next more => exact ⟨trailing, _, rfl, all⟩

theorem Accepts.perm (accepts : Accepts reader pieces items) (perm : items.Perm others)
    (lists : Lists reader others written) : Accepts reader written others where
  lists := lists
  sound := {
    known := fun item member => accepts.sound.known item (perm.mem_iff.mpr member)
    distinct := (perm.map Item.name).nodup_iff.mp accepts.sound.distinct }
  complete := fun item member => accepts.complete item (perm.mem_iff.mpr member)
  message := (perm.map Item.name).mem_iff.mp accepts.message

theorem Assigns.unique {find again : Tag → Option (List String)} (assigns : Assigns find items)
    (others : Assigns again items) : find = again :=
  funext fun tag => Option.ext fun words => (assigns tag words).trans (others tag words).symm

theorem Assigns.perm {find : Tag → Option (List String)} (assigns : Assigns find items)
    (perm : items.Perm others) : Assigns find others := by
  intro tag words
  rw [assigns tag words]
  simp only [perm.mem_iff]

namespace Arguments

theorem get?_injective : Function.Injective get? := by
  intro first second same
  have message := Option.some.inj (congrFun same .message)
  have labels : first.labels = second.labels := congrFun same .labels
  have help : first.help = second.help := congrFun same .help
  cases first
  cases second
  simp_all

theorem assigns_of_lists {arguments : Arguments} (read : ofPieces reader pieces = .ok arguments)
    (lists : Lists reader items pieces) :
    Accepts reader pieces items ∧ Assigns arguments.get? items := by
  obtain ⟨found, accepts, assigns⟩ := exists_accepts read
  obtain rfl := lists.unique accepts.lists
  exact ⟨accepts, assigns⟩

theorem ofPieces_of_perm {arguments : Arguments} (read : ofPieces reader pieces = .ok arguments)
    (lists : Lists reader items pieces) (again : Lists reader others written)
    (perm : items.Perm others) : ofPieces reader written = .ok arguments := by
  obtain ⟨accepts, assigns⟩ := assigns_of_lists read lists
  obtain ⟨same, read, found⟩ := ofPieces_of_accepts (accepts.perm perm again)
  rw [read, get?_injective (found.unique (assigns.perm perm))]

end Arguments

theorem Declaration.target_addArguments
    (same : Arguments.ofPieces reader pieces = Arguments.ofPieces reader written)
    (declaration : Declaration) (behind : List Attribute) :
    (declaration.addArguments pieces behind).target reader =
      (declaration.addArguments written behind).target reader := by
  simp only [Declaration.target, Declaration.addArguments, List.find?_append]
  cases earlier : declaration.attributes.find? (·.name == some "error") with
  | some found => simp
  | none => simp [same]

end

namespace Arguments

/-- Just those arguments are accepted whose items have nothing wrong. Each tag gets the expression
of its own item, and others are refused for what is wrong first. With a reader that stops at commas
all accepted arguments are written entry by entry, and their order makes no difference. -/
theorem ofPieces_items (reader : ExpressionReader) :
    (∀ pieces, (∃ arguments, ofPieces reader pieces = .ok arguments) ↔
      ∃ items, Accepts reader pieces items) ∧
    (∀ pieces arguments items, ofPieces reader pieces = .ok arguments →
      Lists reader items pieces → Assigns arguments.get? items) ∧
    (∀ pieces error, ofPieces reader pieces = .error error ↔ Refuses reader pieces error) ∧
    (reader.StopsAtComma →
      (∀ pieces arguments, ofPieces reader pieces = .ok arguments →
        ∃ trailing entries, pieces = writeEntries trailing entries ∧
          ∀ entry ∈ entries, ∃ words, entry.Spells reader words) ∧
      ∀ entries others trailing another arguments,
        (∀ entry ∈ entries, ∃ words, entry.Spells reader words) → entries.Perm others →
        ofPieces reader (writeEntries trailing entries) = .ok arguments →
        ofPieces reader (writeEntries another others) = .ok arguments ∧
        ∀ (declaration : Declaration) behind,
          ((declaration.addArguments (writeEntries another others) behind).target reader).map
              Target.code =
            ((declaration.addArguments (writeEntries trailing entries) behind).target reader).map
              Target.code) := by
  refine ⟨fun pieces => ⟨?_, ?_⟩, fun pieces arguments items read lists => ?_,
    fun pieces error => ofPieces_eq_error, fun stops => ⟨?_, ?_⟩⟩
  · rintro ⟨arguments, read⟩
    obtain ⟨items, accepts, _⟩ := exists_accepts read
    exact ⟨items, accepts⟩
  · rintro ⟨items, accepts⟩
    obtain ⟨arguments, read, _⟩ := ofPieces_of_accepts accepts
    exact ⟨arguments, read⟩
  · exact (assigns_of_lists read lists).2
  · intro pieces arguments read
    obtain ⟨items, accepts, _⟩ := exists_accepts read
    exact exists_writeEntries stops accepts.lists accepts.complete
  · intro entries others trailing another arguments spells perm read
    choose! words spells using spells
    have lists := lists_writeEntries stops trailing spells
    have again := lists_writeEntries stops another fun entry member =>
      spells entry (perm.mem_iff.mpr member)
    have same := ofPieces_of_perm read lists again (perm.map _)
    refine ⟨same, fun declaration behind => ?_⟩
    rw [Declaration.target_addArguments (same.trans read.symm)]

/-- A message and a help with a comma of its own, which is a closure, with the help in front. -/
theorem ofPieces_items_swapped :
    let message : Entry := ⟨"message", false, [.literal "\"a\""], false⟩
    let help : Entry := ⟨"help", false, [.mark '|' false, .word "a", .mark ',' false, .word "b",
      .mark '|' false, .word "a"], false⟩
    readWords?.StopsAtComma ∧
      ofPieces readWords? (writeEntries true [help, message]) =
        .ok ⟨["\"a\""], none, some ["|", "a", ",", "b", "|", "a"]⟩ := by
  intro message help
  have stops : readWords?.StopsAtComma := ExpressionReader.stopsAtComma_ofWhole
  have spells : ∀ entry ∈ [message, help], ∃ words, entry.Spells readWords? words := by
    intro entry member
    rcases List.mem_pair.mp member with rfl | rfl
    · exact ⟨["\"a\""], rfl, ExpressionReader.reads_ofWhole.mpr ⟨rfl, by decide⟩⟩
    · exact ⟨["|", "a", ",", "b", "|", "a"], rfl,
        ExpressionReader.reads_ofWhole.mpr ⟨rfl, by decide⟩⟩
  have reorder := ((ofPieces_items readWords?).2.2.2 stops).2
  exact ⟨stops, (reorder _ _ false true _ spells (.swap ..) (by decide +kernel)).1⟩

-- A tag is refused before its expression is read, which is missing here.
example :
    ofPieces readWords? [.word "message", .mark '=' false, .literal "\"a\"", .mark ',' false,
      .word "message", .mark '=' false] = .error (.duplicateTag "message") := by
  decide +kernel

end Arguments

end Derive

end SymbolicCalculus
