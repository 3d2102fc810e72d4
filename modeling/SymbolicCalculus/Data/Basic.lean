import SymbolicCalculus.Double.Basic
import SymbolicCalculus.Refusal

/-!
Structured data, as expressions and trees are stored in it. A choice between alternatives is a
record with one key, the name of the alternative; a structure is a record of its fields, each of
which comes once, or a list of them in order.
-/

set_option autoImplicit false

namespace SymbolicCalculus

inductive Data where
  | null
  | bool (value : Bool)
  | integer (value : Int)
  | real (value : Double)
  | text (value : String)
  | list (items : List Data)
  | record (fields : List (String × Data))
  deriving Inhabited, Repr

namespace Data

/-- Why data could not be read: it has the wrong shape, or a part is refused. -/
inductive Error where
  | shape
  | refused (reason : Refusal)
  deriving DecidableEq, Repr

def Error.message? : Error → Option String
  | shape => none
  | refused reason => some reason.message

/-- Any number counts as a real one, rounded if need be. -/
def toDouble : Data → Except Error Double
  | integer value => .ok (Double.ofInt value)
  | real value => .ok value
  | _ => .error .shape

def toNat : Data → Except Error Nat
  | integer (.ofNat value) => .ok value
  | _ => .error .shape

def toText : Data → Except Error String
  | text value => .ok value
  | _ => .error .shape

/-- The name of an alternative that has no content: a text, or a record of nothing. -/
def toName : Data → Except Error String
  | text name => .ok name
  | record [(name, null)] => .ok name
  | _ => .error .shape

/-- The part of a structure with the given key, which is at the given index in a list. -/
def part? (key : String) (index : Nat) : Data → Option Data
  | record fields => fields.lookup key
  | list items => items[index]?
  | _ => none

/-- Does each of these keys come at most once? -/
def distinct (keys : List String) (fields : List (String × Data)) : Bool :=
  keys.all fun key => decide ((fields.filter (·.1 == key)).length ≤ 1)

/-- A record holds the fields of a structure only if none comes twice, a list only if none is left
over. -/
def hasFields (keys : List String) : Data → Bool
  | record fields => distinct keys fields
  | list items => items.length == keys.length
  | _ => false

/-- Reads a required field. -/
def field {α : Type} (read : Data → Except Error α) (key : String) (index : Nat) (data : Data) :
    Except Error α :=
  match data.part? key index with
  | none => .error .shape
  | some part => read part

theorem sizeOf_lt_of_lookup {key : String} {fields : List (String × Data)} {part : Data}
    (h : fields.lookup key = some part) : sizeOf part < sizeOf fields := by
  induction fields with
  | nil => simp at h
  | cons field fields ih =>
    obtain ⟨name, value⟩ := field
    rw [List.lookup_cons] at h
    split at h
    · cases h
      simp only [List.cons.sizeOf_spec, Prod.mk.sizeOf_spec]
      omega
    · have := ih h
      simp only [List.cons.sizeOf_spec]
      omega

theorem sizeOf_lt_of_part? {key : String} {index : Nat} {data part : Data}
    (h : data.part? key index = some part) : sizeOf part < sizeOf data := by
  match data, h with
  | record fields, h =>
    have := sizeOf_lt_of_lookup h
    simp only [record.sizeOf_spec]
    omega
  | list items, h =>
    have := List.sizeOf_lt_of_mem (List.mem_of_getElem? h)
    simp only [list.sizeOf_spec]
    omega

end Data

end SymbolicCalculus
