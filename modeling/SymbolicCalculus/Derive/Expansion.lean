import SymbolicCalculus.Derive.Tags

/-!
The code generated for a target: a method that gives the message, and one that builds the report.
What is generated is kept as a tree that shows where names are bound and where they are looked up.
-/

set_option autoImplicit false

namespace SymbolicCalculus

namespace Derive

/-- Code with places for the expressions of the tags. Words have one blank between each two. -/
inductive Code where
  | done
  /-- Words that neither bind nor look up a variable. -/
  | words (text : String) (rest : Code)
  | lookup (name : String) (rest : Code)
  /-- The expression of a tag. -/
  | splice (tag : Tag) (rest : Code)
  /-- What is there only if the tag is given. -/
  | ifGiven (tag : Tag) (inner rest : Code)
  /-- The statement that binds the fields. -/
  | fields (rest : Code)
  /-- A variable, bound for the rest. -/
  | bind (mutable : Bool) (name : String) (value rest : Code)
  /-- A closure, whose parameters are bound in its body. -/
  | closure (parameters : List String) (body rest : Code)
  deriving DecidableEq, Repr

structure Method where
  /-- What stands in front of the parameters. -/
  head : String
  /-- The parameters behind `self`, with their types. -/
  parameters : List (String × String)
  result : String
  body : Code
  deriving DecidableEq, Repr

def messageMethod : Method where
  head := "fn message"
  parameters := []
  result := "String"
  body :=
    .words "# [ allow ( unused_variables ) ]" <| .fields <| .words "(" <| .splice .message <|
    .words ") . to_string ( )" .done

/-- The body of the closure that gives a label its place and its text. -/
def labelCode : Code :=
  .words "\x7b" <|
  .bind true "label"
    (.words "ariadne : : Label : : new ( (" <| .lookup "src_id" <| .words "," <|
      .lookup "span" <| .words ". clone ( ) ) ) . with_color ( symdiff_error : : EXPR )" .done) <|
  .words "if !" <| .lookup "label_str" <| .words ". is_empty ( ) \x7b" <|
  .lookup "label" <| .words "=" <| .lookup "label" <| .words ". with_message (" <|
  .lookup "label_str" <| .words ") ; \x7d" <| .lookup "label" <| .words "\x7d" .done

/-- The value of the builder, which has the message and the labels already. -/
def builderCode : Code :=
  .words "ariadne : : Report : : build ( ariadne : : ReportKind : : Error ," <|
  .lookup "src_id" <| .words "," <| .lookup "offset" <| .words ") . with_message (" <|
  .splice .message <| .words ") . with_labels (" <| .splice .labels <|
  .words ". into_iter ( ) . zip (" <| .lookup "spans" <| .words ". iter ( ) ) . map (" <|
  .closure ["label_str", "span"] labelCode <|
  .words ") . collect : : < Vec < _ > > ( ) )" .done

/-- What is done behind the statement that binds the fields. -/
def reportCode : Code :=
  .bind false "offset"
    (.lookup "spans" <| .words ". first ( ) . map_or ( 0 ," <|
      .closure ["span"] (.lookup "span" <| .words ". start" .done) <| .words ")" .done) <|
  .bind true "builder" builderCode <|
  .ifGiven .help
    (.lookup "builder" <| .words ". set_help (" <| .splice .help <| .words ") ;" .done) <|
  .lookup "builder" <| .words ". finish ( )" .done

def reportMethod : Method where
  head := "fn build_report < \x27 a >"
  parameters :=
    [("src_id", "& \x27 a str"), ("spans", "& [ std : : ops : : Range < usize > ]")]
  result := "ariadne : : Report < ( & \x27 a str , std : : ops : : Range < usize > ) >"
  body := .words "# [ allow ( unused_variables ) ]" <| .fields reportCode

/-- Several parameters of a closure are the parts of one. -/
def closurePattern : List String → List String
  | [name] => [name]
  | names => "(" :: (names.intersperse "," ++ [")"])

namespace Target

/-- The expression that stands for a tag. Without labels there is one that says nothing. -/
def expression (target : Target) : Tag → List String
  | .message => target.message
  | .labels => target.labels.getD ["[", "\"\"", "]"]
  | .help => target.help.getD []

/-- Is the tag there to be spliced? -/
def gives (target : Target) : Tag → Bool
  | .help => target.help.isSome
  | _ => true

/-- The statement that takes a structure apart into its fields, which must have names. -/
def destructuring (target : Target) : List String :=
  match target.fields with
  | .named names =>
    ["let", target.name, "\x7b"] ++ names.intersperse "," ++ ["\x7d", "=", "self", ";"]
  | .tuple =>
    ["compile_error", "!", "(", "\"`ErrorKind` cannot be derived for tuple structs\"", ")", ";"]
  | .unit => []

/-- The words of code. -/
def fill (target : Target) : Code → List String
  | .done => []
  | .words text rest => text :: target.fill rest
  | .lookup name rest => name :: target.fill rest
  | .splice tag rest => target.expression tag ++ target.fill rest
  | .ifGiven tag inner rest =>
    (if target.gives tag then target.fill inner else []) ++ target.fill rest
  | .fields rest => target.destructuring ++ target.fill rest
  | .bind mutable name value rest =>
    "let" :: ((if mutable then ["mut"] else []) ++ name :: "=" :: target.fill value) ++
      ";" :: target.fill rest
  | .closure parameters body rest =>
    "|" :: (closurePattern parameters ++ "|" :: target.fill body) ++ target.fill rest

def fillMethod (target : Target) (method : Method) : List String :=
  method.head :: "(" :: "& self" ::
    (method.parameters.flatMap (fun (name, type) => [",", name, ":", type]) ++
      (if method.parameters.isEmpty then [] else [","]) ++
      [")", "- >", method.result, "\x7b"] ++ target.fill method.body ++ ["\x7d"])

def code (target : Target) : String :=
  String.intercalate " " (target.fillMethod messageMethod ++ target.fillMethod reportMethod)

end Target

end Derive

end SymbolicCalculus
