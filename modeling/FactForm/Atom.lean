import FactForm.Value

/-!
# FactForm.Atom

A logic atom is a predicate name, possibly negated by a leading minus, with a list of values.

* `Atom`      — an atom; its parts are tokens of the grammar by construction.
* `Atom.text` — the canonical text, `p` or `p(a,b)` without any blank.
* `Atom.before` — the order of atoms, by predicate and then by arguments from left to right.
-/

namespace FactForm

/-- An identifier, or a minus and an identifier. -/
def isPredicate : Text → Bool
  | '-' :: r => isIdentifier r
  | s => isIdentifier s

structure Atom where
  predicate : Text
  arguments : List Text
  predicate_ok : isPredicate predicate = true
  arguments_ok : arguments.all isValue = true
  deriving DecidableEq

/-- The text of an atom made of the given parts, whether or not they are tokens. -/
def atomText (predicate : Text) (arguments : List Text) : Text :=
  if arguments.isEmpty then predicate
  else predicate ++ '(' :: Text.joinWith [','] arguments ++ [')']

namespace Atom

def text (a : Atom) : Text := atomText a.predicate a.arguments

def arity (a : Atom) : Nat := a.arguments.length

def isNegated (a : Atom) : Bool := a.predicate.head? == some '-'

/-- The predicate and the arguments in one list, whose order is the order of atoms. -/
def tokens (a : Atom) : List Text := a.predicate :: a.arguments

/-- Whether an atom comes before another: predicates decide first, then the arguments. -/
def before (a b : Atom) : Bool := listBefore Text.before a.tokens b.tokens

/-! ## Laws -/

theorem ext_tokens {a b : Atom} (h : a.tokens = b.tokens) : a = b := by
  cases a
  cases b
  simp only [tokens, List.cons.injEq] at h
  obtain ⟨rfl, rfl⟩ := h
  rfl

theorem strictOrder : StrictOrder before where
  irrefl a := listBefore_irrefl a.tokens
  trans := Text.strictOrder.listBefore_trans
  eq_of_not h₁ h₂ := ext_tokens (Text.strictOrder.eq_of_not_listBefore h₁ h₂)

end Atom
end FactForm
