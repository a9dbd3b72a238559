import FactForm.Proofs.Atom.Grammar
import FactForm.Proofs.Text.Bytes

/-!
# FactForm.Proofs.Atom.TextOrder

The order of atoms and the order of their canonical texts. A token that is a proper prefix of another
token is continued there by a word character, and the characters that stand behind a token in a
canonical text come before all word characters: the parentheses first, then the comma. So the first
token in which two atoms differ decides how their texts compare, and the shorter of two argument lists
closes where the other goes on.

* `isWordChar_of_append` — how a token goes on behind another one that it begins with.
* `Text.before_append` — when texts compare as their fronts do.
* `atomText_eq` — the canonical text, token by token.
* `before_closing` — texts of argument lists compare as the lists do.
* `Atom.before_text` — texts of atoms compare as the atoms do.
-/

namespace FactForm

/-! ## Tokens that begin with a token -/

theorem isWordChar_of_append {isToken : Text → Bool} {read : Text → Option (Text × Text)}
    (hread : ∀ {v rest : Text}, isToken v = true → isBoundary rest = true →
      read (v ++ rest) = some (v, rest))
    {v r : Text} {c : Char} (hv : isToken v = true) (h : isToken (v ++ c :: r) = true) :
    isWordChar c = true := by
  cases hc : isWordChar c with
  | true => rfl
  | false =>
    have hshort : read (v ++ c :: r) = some (v, c :: r) := hread hv (isBoundary_cons.2 hc)
    have hlong : read ((v ++ c :: r) ++ []) = some (v ++ c :: r, []) := hread h rfl
    rw [List.append_nil, hshort, Option.some.injEq, Prod.mk.injEq] at hlong
    exact absurd hlong.2 (List.cons_ne_nil c r)

theorem isWordChar_of_isValue_append {v r : Text} {c : Char} (hv : isValue v = true)
    (h : isValue (v ++ c :: r) = true) : isWordChar c = true :=
  isWordChar_of_append readValue_append_boundary hv h

theorem isWordChar_of_isPredicate_append {p r : Text} {c : Char} (hp : isPredicate p = true)
    (h : isPredicate (p ++ c :: r) = true) : isWordChar c = true :=
  isWordChar_of_append readPredicate_append_boundary hp h

/-! ## Comparing fronts -/

/-- The text is empty or begins with a character that comes before all word characters. -/
def beginsLow (s : Text) : Bool := s.head?.all fun c => c.toNat < '0'.toNat

namespace Text

theorem before_cons_self (c : Char) (s t : Text) : before (c :: s) (c :: t) = before s t := by
  simp [before, listBefore]

theorem before_append_left (s x y : Text) : before (s ++ x) (s ++ y) = before x y :=
  listBefore_append_left s x y

theorem before_of_beginsLow {x : Text} {c : Char} (hx : beginsLow x = true)
    (hc : isWordChar c = true) (y : Text) : before x (c :: y) = true := by
  cases x with
  | nil => rfl
  | cons d x =>
    have hd : d.toNat < '0'.toNat := by simpa [beginsLow] using hx
    have hdc : d.toNat < c.toNat := Nat.lt_of_lt_of_le hd (toNat_of_isWordChar hc).1
    refine listBefore_cons_iff.2 (.inr ⟨?_, decide_eq_true hdc⟩)
    rintro rfl
    exact Nat.lt_irrefl _ hdc

/-- Texts compare as their fronts do, if a longer front goes on with a word character and a shorter
one does not. -/
theorem before_append {s t x : Text} (h : before s t = true) (hx : beginsLow x = true)
    (hnext : ∀ c r, t = s ++ c :: r → isWordChar c = true) (y : Text) :
    before (s ++ x) (t ++ y) = true := by
  induction s generalizing t with
  | nil =>
    cases t with
    | nil => simp [before, listBefore] at h
    | cons d t => exact before_of_beginsLow hx (hnext d t rfl) (t ++ y)
  | cons c s ih =>
    cases t with
    | nil => simp [before, listBefore] at h
    | cons d t =>
      rcases listBefore_cons_iff.1 h with ⟨rfl, hrest⟩ | ⟨hne, hlt⟩
      · rw [List.cons_append, List.cons_append, before_cons_self]
        exact ih hrest fun e r heq => hnext e r (by rw [heq, List.cons_append])
      · exact listBefore_cons_iff.2 (.inr ⟨hne, hlt⟩)

end Text

/-! ## Canonical texts by tokens -/

def closing : List Text → Text
  | [] => [')']
  | v :: vs => ',' :: (v ++ closing vs)

def argumentsText : List Text → Text
  | [] => []
  | v :: vs => '(' :: (v ++ closing vs)

theorem joinWith_closing (v : Text) (vs : List Text) :
    Text.joinWith [','] (v :: vs) ++ [')'] = v ++ closing vs := by
  induction vs generalizing v with
  | nil => rw [Text.joinWith_singleton, closing]
  | cons w vs ih =>
    rw [Text.joinWith_cons (List.cons_ne_nil w vs), List.append_assoc, List.append_assoc, ih,
      List.singleton_append, closing]

theorem atomText_eq (p : Text) (vs : List Text) : atomText p vs = p ++ argumentsText vs := by
  cases vs with
  | nil => simp [atomText, argumentsText]
  | cons v vs => simp [atomText, argumentsText, ← joinWith_closing]

theorem beginsLow_closing (vs : List Text) : beginsLow (closing vs) = true := by
  cases vs <;> rfl

theorem beginsLow_argumentsText (vs : List Text) : beginsLow (argumentsText vs) = true := by
  cases vs <;> rfl

/-! ## Comparing texts of atoms -/

/-- Texts of argument lists compare as the lists do: a closing parenthesis comes before a comma. -/
theorem before_closing {vs ws : List Text} (hvs : vs.all isValue = true) (hws : ws.all isValue = true)
    (h : listBefore Text.before vs ws = true) : Text.before (closing vs) (closing ws) = true := by
  induction vs generalizing ws with
  | nil =>
    cases ws with
    | nil => simp [listBefore] at h
    | cons w ws => rfl
  | cons v vs ih =>
    cases ws with
    | nil => simp [listBefore] at h
    | cons w ws =>
      rw [List.all_cons, Bool.and_eq_true] at hvs hws
      rw [closing, closing, Text.before_cons_self]
      rcases listBefore_cons_iff.1 h with ⟨rfl, hrest⟩ | ⟨_, hlt⟩
      · rw [Text.before_append_left]
        exact ih hvs.2 hws.2 hrest
      · refine Text.before_append hlt (beginsLow_closing vs) ?_ _
        rintro c r rfl
        exact isWordChar_of_isValue_append hvs.1 hws.1

theorem before_argumentsText {vs ws : List Text} (hvs : vs.all isValue = true)
    (hws : ws.all isValue = true) (h : listBefore Text.before vs ws = true) :
    Text.before (argumentsText vs) (argumentsText ws) = true := by
  cases ws with
  | nil => simp [listBefore] at h
  | cons w ws =>
    cases vs with
    | nil => rfl
    | cons v vs =>
      rw [argumentsText, argumentsText, Text.before_cons_self]
      have hclosing := before_closing hvs hws h
      rwa [closing, closing, Text.before_cons_self] at hclosing

namespace Atom

theorem text_eq (a : Atom) : a.text = a.predicate ++ argumentsText a.arguments :=
  atomText_eq a.predicate a.arguments

theorem before_text_of_before {a b : Atom} (h : a.before b = true) :
    Text.before a.text b.text = true := by
  rw [text_eq, text_eq]
  rcases listBefore_cons_iff.1 h with ⟨hpred, hargs⟩ | ⟨_, hpred⟩
  · rw [hpred, Text.before_append_left]
    exact before_argumentsText a.arguments_ok b.arguments_ok hargs
  · refine Text.before_append hpred (beginsLow_argumentsText a.arguments) ?_ _
    intro c r heq
    have hb := b.predicate_ok
    rw [heq] at hb
    exact isWordChar_of_isPredicate_append a.predicate_ok hb

theorem before_text (a b : Atom) : Text.before a.text b.text = a.before b :=
  strictOrder.eq_of_mono Text.strictOrder before_text_of_before a b

end Atom
end FactForm
