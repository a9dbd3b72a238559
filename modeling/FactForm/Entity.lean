import FactForm.Dictionary
import FactForm.Template.Reading

/-!
# FactForm.Entity

An entity is one piece of structured data in three shapes: a dictionary of values, a text for
people, and the text of a logic atom.

* `Template.render`   — the text of a template filled with values.
* `Template.valuesOf` — the values of a text that follows a template from end to end.
* `Entity`            — the three shapes, each made from the same values.
-/

namespace FactForm

/-- Why a text or a dictionary does not fit a template, which is shown by its shape. -/
inductive RepresentationError where
  | unmatched (input template : Text)
  | missingValue (id : Text) (values : Dictionary Text) (template : Text)
  | unexpectedValue (id template : Text)
  | conflictingValues (id input template : Text)
  deriving DecidableEq

def quotedEntries (values : Dictionary Text) : Text :=
  '\x7b' :: Text.joinWith [',', ' ']
    (values.entries.map fun e => Text.quoted e.1 ++ ':' :: ' ' :: Text.quoted e.2) ++ ['\x7d']

def RepresentationError.message : RepresentationError → Text
  | .unmatched input template =>
    "invalid representation string \"".toList ++ input ++ "\" for template \"".toList ++
      template ++ ['"']
  | .missingValue id values template =>
    "placeholder value map ".toList ++ quotedEntries values ++ " has no value for \"".toList ++
      id ++ "\" in template \"".toList ++ template ++ ['"']
  | .unexpectedValue id template =>
    "placeholder value map has a value for \"".toList ++ id ++ "\", which template \"".toList ++
      template ++ "\" does not declare".toList
  | .conflictingValues id input template =>
    "placeholder \"".toList ++ id ++ "\" matched two different values in \"".toList ++ input ++
      "\" for template \"".toList ++ template ++ ['"']

/-- The text of a sequence of parts, or the id of the first slot without a value. -/
def fillParts (values : Dictionary Text) : List Part → Except Text Text
  | [] => .ok []
  | .fixed text :: parts =>
    match fillParts values parts with
    | .ok s => .ok (text ++ s)
    | .error id => .error id
  | .slot p :: parts =>
    match values.get? p.id with
    | none => .error p.id
    | some v =>
      match fillParts values parts with
      | .ok s => .ok (v ++ s)
      | .error id => .error id

/-- Adds values under their ids, or gives the first id with two different values. -/
def collectValues (values : Dictionary Text) : List (Text × Text) → Except Text (Dictionary Text)
  | [] => .ok values
  | (id, v) :: rest =>
    match values.get? id with
    | none => collectValues (values.set id v) rest
    | some w => if w = v then collectValues values rest else .error id

namespace Template

/-- Values for ids that the template does not mention are ignored. -/
def render (t : Template) (values : Dictionary Text) : Except RepresentationError Text :=
  match fillParts values t.parts with
  | .ok s => .ok s
  | .error id => .error (.missingValue id values t.shape)

/-- The values of the preferred reading of the whole text. -/
def valuesOf (t : Template) (text : Text) : Except RepresentationError (Dictionary Text) :=
  match readWhole t.parts text with
  | none => .error (.unmatched text t.shape)
  | some r =>
    match collectValues .empty (t.ids.zip r.values) with
    | .ok values => .ok values
    | .error id => .error (.conflictingValues id text t.shape)

/-- Whether a text has exactly these values. -/
def readsBack (t : Template) (text : Text) (values : Dictionary Text) : Bool :=
  match t.valuesOf text with
  | .ok found => found = values
  | .error _ => false

end Template

structure Entity where
  values : Dictionary Text
  display : Text
  atom : Text
  deriving DecidableEq

namespace Entity

def value? (e : Entity) (id : Text) : Option Text := e.values.get? id

/-- The values rendered by the template for display and by the template for atoms. -/
def ofValues (display atom : Template) (values : Dictionary Text) :
    Except RepresentationError Entity :=
  match display.render values with
  | .error e => .error e
  | .ok displayText =>
    match atom.render values with
    | .error e => .error e
    | .ok atomText => .ok ⟨values, displayText, atomText⟩

def ofDisplayText (display atom : Template) (text : Text) : Except RepresentationError Entity :=
  match display.valuesOf text with
  | .error e => .error e
  | .ok values => ofValues display atom values

def ofAtomText (display atom : Template) (text : Text) : Except RepresentationError Entity :=
  match atom.valuesOf text with
  | .error e => .error e
  | .ok values => ofValues display atom values

end Entity
end FactForm
