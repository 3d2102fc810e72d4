import Mathlib.Data.List.Basic
import SymbolicCalculus.Derive.Expansion

/-!
What names stand for in generated code. A variable of the code can hide a field from the expression
of a tag, and a field can hide a parameter from the code.
-/

set_option autoImplicit false

namespace SymbolicCalculus

namespace Derive

/-- The name without what marks it as no keyword. -/
def bareName (name : String) : String :=
  match name.toList with
  | 'r' :: '#' :: rest => String.ofList rest
  | _ => name

def Fields.names : Fields → List String
  | .named names => names
  | _ => []

/-- What a name can stand for. -/
inductive Referent where
  | parameter (name : String)
  | field (name : String)
  /-- A variable of the generated code. -/
  | generated (name : String)
  deriving DecidableEq, Repr

def Referent.name : Referent → String
  | parameter name => name
  | field name => name
  | generated name => name

/-- What a name stands for, where the scope has first what was bound last. -/
def resolve? (scope : List Referent) (name : String) : Option Referent :=
  scope.find? (·.name == bareName name)

/-- A place in code where names are looked up: one by the code, or those of an expression. -/
inductive Site where
  | lookup (name : String)
  | splice (tag : Tag)
  deriving DecidableEq, Repr

def Target.fieldScope (target : Target) : List Referent :=
  (target.fields.names.map bareName).map .field

/-- The places where names are looked up, with what is in scope there. -/
def Code.sites (target : Target) (scope : List Referent) : Code → List (Site × List Referent)
  | .done => []
  | .words _ rest => rest.sites target scope
  | .lookup name rest => (.lookup name, scope) :: rest.sites target scope
  | .splice tag rest => (.splice tag, scope) :: rest.sites target scope
  | .ifGiven tag inner rest =>
    (if target.gives tag then inner.sites target scope else []) ++ rest.sites target scope
  | .fields rest => rest.sites target (target.fieldScope ++ scope)
  | .bind _ name value rest =>
    value.sites target scope ++ rest.sites target (.generated name :: scope)
  | .closure parameters body rest =>
    body.sites target (parameters.map Referent.generated ++ scope) ++ rest.sites target scope

def Method.sites (method : Method) (target : Target) : List (Site × List Referent) :=
  method.body.sites target (method.parameters.map fun (name, _) => .parameter name)

/-- Everything that code binds somewhere. -/
def Code.bound (target : Target) : Code → List Referent
  | .done => []
  | .words _ rest => rest.bound target
  | .lookup _ rest => rest.bound target
  | .splice _ rest => rest.bound target
  | .ifGiven _ inner rest => inner.bound target ++ rest.bound target
  | .fields rest => target.fieldScope ++ rest.bound target
  | .bind _ name value rest => .generated name :: (value.bound target ++ rest.bound target)
  | .closure parameters body rest =>
    parameters.map Referent.generated ++ (body.bound target ++ rest.bound target)

section

variable {scope start : List Referent} {name : String} {target : Target}

theorem resolve?_cons (first : Referent) :
    resolve? (first :: scope) name =
      if first.name = bareName name then some first else resolve? scope name := by
  by_cases same : first.name = bareName name <;> simp [resolve?, same]

theorem resolve?_append_of_forall_ne {first : List Referent}
    (other : ∀ referent ∈ first, referent.name ≠ bareName name) :
    resolve? (first ++ scope) name = resolve? scope name := by
  induction first with
  | nil => rfl
  | cons referent first ih =>
    obtain ⟨here, behind⟩ := List.forall_mem_cons.mp other
    rw [List.cons_append, resolve?_cons, if_neg here, ih behind]

/-- Things of one kind, each with its own name. -/
theorem resolve?_map_append {kind : String → Referent} (named : ∀ own, (kind own).name = own)
    (names : List String) :
    resolve? (names.map kind ++ scope) name =
      if bareName name ∈ names then some (kind (bareName name)) else resolve? scope name := by
  induction names with
  | nil => rfl
  | cons own names ih =>
    rw [List.map_cons, List.cons_append, resolve?_cons, named, ih]
    by_cases same : own = bareName name
    · simp [same]
    · simp [same, Ne.symm same]

/-- A name that code does not bind stands everywhere in it for what it stood for in front. -/
theorem Code.resolve?_of_mem_sites {code : Code} {site : Site}
    (found : (site, scope) ∈ code.sites target start)
    (other : ∀ referent ∈ code.bound target, referent.name ≠ bareName name) :
    resolve? scope name = resolve? start name := by
  induction code generalizing start with
  | done => cases found
  | words _ rest ih => exact ih found other
  | lookup _ rest ih | splice _ rest ih =>
    rcases List.mem_cons.mp found with here | found
    · rw [(Prod.mk.inj here).2]
    · exact ih found other
  | ifGiven tag inner rest ihInner ih =>
    obtain ⟨otherInner, other⟩ := List.forall_mem_append.mp other
    rcases List.mem_append.mp found with found | found
    · split at found
      · exact ihInner found otherInner
      · cases found
    · exact ih found other
  | fields rest ih =>
    obtain ⟨here, other⟩ := List.forall_mem_append.mp other
    rw [ih found other, resolve?_append_of_forall_ne here]
  | bind _ own value rest ihValue ih =>
    obtain ⟨here, other⟩ := List.forall_mem_cons.mp other
    obtain ⟨otherValue, other⟩ := List.forall_mem_append.mp other
    rcases List.mem_append.mp found with found | found
    · exact ihValue found otherValue
    · rw [ih found other, resolve?_cons, if_neg here]
  | closure parameters body rest ihBody ih =>
    obtain ⟨here, other⟩ := List.forall_mem_append.mp other
    obtain ⟨otherBody, other⟩ := List.forall_mem_append.mp other
    rcases List.mem_append.mp found with found | found
    · rw [ihBody found otherBody, resolve?_append_of_forall_ne here]
    · exact ih found other

end

/-! ## The generated methods -/

section

variable {target : Target} {tag : Tag} {scope : List Referent}

/-- The variables of the report that are bound where the expression of a tag stands. -/
def Tag.boundBefore : Tag → List String
  | .help => ["builder", "offset"]
  | _ => ["offset"]

theorem mem_sites_messageMethod :
    (.splice tag, scope) ∈ messageMethod.sites target ↔
      tag = .message ∧ scope = target.fieldScope := by
  simp [messageMethod, Method.sites, Code.sites]

theorem mem_sites_reportMethod :
    (.splice tag, scope) ∈ reportMethod.sites target ↔
      target.gives tag = true ∧
        scope = tag.boundBefore.map Referent.generated ++
          (target.fieldScope ++ [.parameter "src_id", .parameter "spans"]) := by
  cases tag <;> cases given : target.help <;>
    simp [Method.sites, reportMethod, Code.sites, reportCode, builderCode, labelCode, Target.gives,
      Tag.boundBefore, given]

theorem bound_reportCode : reportCode.bound target =
    ["offset", "span", "builder", "label_str", "span", "label"].map Referent.generated := rfl

/-- Only a field can hide a parameter, as no variable has the same name. -/
theorem resolve?_parameter {name : String} (parameter : name ∈ ["src_id", "spans"])
    {site : Site} (found : (site, scope) ∈ reportMethod.sites target) :
    resolve? scope name =
      if name ∈ target.fields.names.map bareName then some (.field name)
      else some (.parameter name) := by
  have bare : bareName name = name := by
    rcases List.mem_pair.mp parameter with rfl | rfl <;> decide
  have free : ∀ referent ∈ reportCode.bound target, referent.name ≠ bareName name := by
    rw [bound_reportCode]
    rcases List.mem_pair.mp parameter with rfl | rfl <;> decide
  have found : (site, scope) ∈ reportCode.sites target
    (target.fieldScope ++ [.parameter "src_id", .parameter "spans"]) := found
  rw [Code.resolve?_of_mem_sites found free, Target.fieldScope,
    resolve?_map_append fun _ => rfl, bare]
  rcases List.mem_pair.mp parameter with rfl | rfl <;> rfl

theorem resolve?_fieldScope_append {name : String} (field : name ∈ target.fields.names) :
    resolve? (target.fieldScope ++ scope) name = some (.field (bareName name)) := by
  rw [Target.fieldScope, resolve?_map_append fun _ => rfl, if_pos (List.mem_map_of_mem field)]

theorem resolve?_fieldScope {name : String} (field : name ∈ target.fields.names) :
    resolve? target.fieldScope name = some (.field (bareName name)) := by
  rw [← resolve?_fieldScope_append field, List.append_nil]

/-- Only a variable can hide a field. -/
theorem resolve?_field {name : String} (field : name ∈ target.fields.names)
    (found : (.splice tag, scope) ∈ reportMethod.sites target) :
    resolve? scope name =
      if bareName name ∈ tag.boundBefore then some (.generated (bareName name))
      else some (.field (bareName name)) := by
  obtain ⟨_, rfl⟩ := mem_sites_reportMethod.mp found
  rw [resolve?_map_append fun _ => rfl, resolve?_fieldScope_append field]

end

namespace Target

/-- Which names of fields stand for the fields in the expressions of the tags. The report hides a
field from them only if the field has the name of a variable bound before, and a field hides a
parameter from the report only if it has the same name. -/
theorem hidden_names (target : Target) :
    (∀ tag scope, (.splice tag, scope) ∈ messageMethod.sites target →
      ∀ name ∈ target.fields.names, resolve? scope name = some (.field (bareName name))) ∧
    (∀ tag, target.gives tag = true → ∃ scope, (.splice tag, scope) ∈ reportMethod.sites target) ∧
    (∀ tag scope, (.splice tag, scope) ∈ reportMethod.sites target →
      ∀ name ∈ target.fields.names, resolve? scope name =
        if bareName name = "offset" ∨ tag = .help ∧ bareName name = "builder" then
          some (.generated (bareName name))
        else some (.field (bareName name))) ∧
    (∀ name ∈ ["src_id", "spans"], ∀ scope, (.lookup name, scope) ∈ reportMethod.sites target →
      resolve? scope name =
        if name ∈ target.fields.names.map bareName then some (.field name)
        else some (.parameter name)) ∧
    ∃ own header, (.splice .message, own) ∈ messageMethod.sites target ∧
      (.splice .message, header) ∈ reportMethod.sites target ∧
      ∀ name ∈ target.fields.names,
        (resolve? header name = resolve? own name ↔ bareName name ≠ "offset") := by
  refine ⟨fun tag scope found name field => ?_,
    fun tag given => ⟨_, mem_sites_reportMethod.mpr ⟨given, rfl⟩⟩,
    fun tag scope found name field => ?_,
    fun name parameter scope found => resolve?_parameter parameter found,
    _, _, mem_sites_messageMethod.mpr ⟨rfl, rfl⟩, mem_sites_reportMethod.mpr ⟨rfl, rfl⟩,
    fun name field => ?_⟩
  · obtain ⟨_, rfl⟩ := mem_sites_messageMethod.mp found
    exact resolve?_fieldScope field
  · rw [resolve?_field field found]
    cases tag <;> simp [Tag.boundBefore, or_comm]
  · rw [resolve?_field field (mem_sites_reportMethod.mpr ⟨rfl, rfl⟩), resolve?_fieldScope field]
    by_cases hidden : bareName name = "offset" <;> simp [Tag.boundBefore, hidden]

/-- Of two fields, only the one with the name of a variable is hidden from the message. -/
theorem hidden_names_mixed :
    let target : Target :=
      ⟨⟨["start"], none, some ["offset"]⟩, "Late", .named ["start", "offset", "spans"]⟩
    ∃ header help builder, (.splice .message, header) ∈ reportMethod.sites target ∧
      (.splice .help, help) ∈ reportMethod.sites target ∧
      (.lookup "src_id", builder) ∈ reportMethod.sites target ∧
      resolve? header "start" = some (.field "start") ∧
      resolve? help "offset" = some (.generated "offset") ∧
      resolve? builder "src_id" = some (.parameter "src_id") := by
  intro target
  obtain ⟨_, given, spliced, looked, _⟩ := hidden_names target
  obtain ⟨header, atHeader⟩ := given .message rfl
  obtain ⟨help, atHelp⟩ := given .help rfl
  have atBuilder : (.lookup "src_id", Referent.generated "offset" ::
      (target.fieldScope ++ [.parameter "src_id", .parameter "spans"])) ∈
      reportMethod.sites target := by decide
  refine ⟨header, help, _, atHeader, atHelp, atBuilder, ?_, ?_, ?_⟩
  · rw [spliced .message header atHeader "start" (by decide)]
    decide
  · rw [spliced .help help atHelp "offset" (by decide)]
    decide
  · rw [looked "src_id" (by decide) _ atBuilder]
    decide

/-- The message of this structure says where its field is, but the header of its report says where
the report is. -/
theorem offset_hidden :
    let text := "#[error(message = offset)] struct Late \x7b offset: usize \x7d"
    ∃ target, Target.ofText text = .ok target ∧ target.fields.names = ["offset"] ∧
      target.message = ["offset"] ∧
      ∃ own header, (.splice .message, own) ∈ messageMethod.sites target ∧
        (.splice .message, header) ∈ reportMethod.sites target ∧
        resolve? own "offset" = some (.field "offset") ∧
        resolve? header "offset" = some (.generated "offset") := by
  refine ⟨⟨⟨["offset"], none, none⟩, "Late", .named ["offset"]⟩, by decide +kernel, rfl, rfl, ?_⟩
  exact ⟨_, _, mem_sites_messageMethod.mpr ⟨rfl, rfl⟩, mem_sites_reportMethod.mpr ⟨rfl, rfl⟩,
    by decide, by decide⟩

end Target

end Derive

end SymbolicCalculus
