import FactForm.Atom
import FactForm.Entity

/-!
# FactForm.Entity.Codec

A codec is a pair of templates, one for display and one for atoms, with the same ids. It turns
each of the three shapes of an entity into the whole entity.

* `Codec.ofTemplates` — the codec of two templates, if they declare the same ids.
* `Codec.fromDisplayText`, `fromAtomText`, `fromAtom` — entities from text.
* `Codec.fromValues` — entities from values, which must be exactly those of the slots and must be
  read back from both texts.
-/

namespace FactForm

def Template.idSet (t : Template) : Dictionary Unit :=
  Dictionary.ofList (t.ids.map fun id => (id, ()))

structure Codec where
  display : Template
  atom : Template
  same_ids : display.idSet = atom.idSet
  deriving DecidableEq

namespace Codec

def ofTemplates (display atom : Template) : Except TemplateError Codec :=
  if h : display.idSet = atom.idSet then .ok ⟨display, atom, h⟩
  else .error (.mismatchedPlaceholders display.idSet.keys atom.idSet.keys)

def fromDisplayText (c : Codec) (text : Text) : Except RepresentationError Entity :=
  Entity.ofDisplayText c.display c.atom text

def fromAtomText (c : Codec) (text : Text) : Except RepresentationError Entity :=
  Entity.ofAtomText c.display c.atom text

/-- An atom is read in its canonical text. -/
def fromAtom (c : Codec) (a : Atom) : Except RepresentationError Entity := c.fromAtomText a.text

/-- The smallest name that is not the id of a slot is an error before all others; a text that does
not read back is one after all others. -/
def fromValues (c : Codec) (values : Dictionary Text) : Except RepresentationError Entity :=
  match values.keys.find? fun id => !c.display.ids.contains id with
  | some id => .error (.unexpectedValue id c.display.shape)
  | none =>
    match Entity.ofValues c.display c.atom values with
    | .error e => .error e
    | .ok e =>
      if !c.display.readsBack e.display values then .error (.unmatched e.display c.display.shape)
      else if !c.atom.readsBack e.atom values then .error (.unmatched e.atom c.atom.shape)
      else .ok e

end Codec
end FactForm
