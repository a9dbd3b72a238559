import FactForm.Atom

/-!
# FactForm.Atom.Reader

Reading atoms from text.

* `readAtom`     — the longest atom at the front of a text, and the rest.
* `Atom.parse`   — a text that is one atom and nothing else.
* `Atom.ofParts` — a checked atom from a predicate and arguments.
* `parseAll`     — a batch, in which malformed entries are reported and skipped.

Blanks may stand around each argument and nowhere else. Every scanner takes the longest token it
can: a shorter one would be followed by a character that no atom allows there.
-/

namespace FactForm

structure MalformedAtom where
  text : Text
  deriving DecidableEq

def MalformedAtom.message (e : MalformedAtom) : Text :=
  "invalid atom string: \"".toList ++ e.text ++ ['"']

def readPredicate : Text → Option (Text × Text)
  | '-' :: r => (readIdentifier r).map fun (p, rest) => ('-' :: p, rest)
  | s => readIdentifier s

/-- One value with the blanks around it, which are dropped. -/
def readArgument (s : Text) : Option (Text × Text) :=
  (readValue (Text.skipBlanks s)).map fun (v, rest) => (v, Text.skipBlanks rest)

theorem readArgument_length_lt {s v rest : Text} (h : readArgument s = some (v, rest)) :
    rest.length < s.length := by
  obtain ⟨⟨w, r⟩, hr, hp⟩ := Option.map_eq_some_iff.1 h
  cases hp
  have h₁ := readValue_length_lt hr
  have h₂ := Text.skipBlanks_length_le s
  have h₃ := Text.skipBlanks_length_le r
  omega

/-- The arguments up to the closing parenthesis, which is consumed. -/
def readArguments (s : Text) : Option (List Text × Text) :=
  match _h : readArgument s with
  | some (v, ',' :: r) => (readArguments r).map fun (vs, rest) => (v :: vs, rest)
  | some (v, ')' :: r) => some ([v], r)
  | _ => none
termination_by s.length
decreasing_by
  have := readArgument_length_lt _h
  simp only [List.length_cons] at this
  omega

/-- Predicate and arguments of the atom at the front of a text. A predicate whose argument list
does not close is an atom without arguments. -/
def readAtomParts (s : Text) : Option (Text × List Text × Text) :=
  match readPredicate s with
  | none => none
  | some (p, '(' :: r) =>
    match readArguments r with
    | some (vs, rest) => some (p, vs, rest)
    | none => some (p, [], '(' :: r)
  | some (p, r) => some (p, [], r)

/-! ## What is read is well formed -/

theorem readPredicate_append {s p rest : Text} (h : readPredicate s = some (p, rest)) :
    s = p ++ rest := by
  unfold readPredicate at h
  split at h
  · obtain ⟨⟨b, e⟩, hb, hp⟩ := Option.map_eq_some_iff.1 h
    cases hp
    simp [← readIdentifier_append hb]
  · exact readIdentifier_append h

theorem isPredicate_of_isIdentifier {s : Text} (h : isIdentifier s = true) :
    isPredicate s = true := by
  unfold isPredicate
  split
  · simp [isIdentifier] at h
  · exact h

theorem readPredicate_isPredicate {s p rest : Text} (h : readPredicate s = some (p, rest)) :
    isPredicate p = true := by
  unfold readPredicate at h
  split at h
  · obtain ⟨⟨b, e⟩, hb, hp⟩ := Option.map_eq_some_iff.1 h
    cases hp
    exact readIdentifier_isIdentifier hb
  · exact isPredicate_of_isIdentifier (readIdentifier_isIdentifier h)

theorem readPredicate_length_lt {s p rest : Text} (h : readPredicate s = some (p, rest)) :
    rest.length < s.length := by
  have hp : p ≠ [] := by
    rintro rfl
    exact absurd (readPredicate_isPredicate h) (by decide)
  have := List.length_pos_iff.2 hp
  rw [readPredicate_append h, List.length_append]
  omega

theorem readArgument_isValue {s v rest : Text} (h : readArgument s = some (v, rest)) :
    isValue v = true := by
  obtain ⟨⟨w, r⟩, hr, hp⟩ := Option.map_eq_some_iff.1 h
  cases hp
  exact readValue_isValue hr

theorem readArguments_isValue {s rest : Text} {vs : List Text}
    (h : readArguments s = some (vs, rest)) : vs.all isValue = true := by
  fun_induction readArguments s generalizing vs rest with
  | case1 s v r hr ih =>
    obtain ⟨⟨ws, e⟩, he, hp⟩ := Option.map_eq_some_iff.1 h
    cases hp
    simp [readArgument_isValue hr, ih he]
  | case2 s v r hr => cases h; simp [readArgument_isValue hr]
  | case3 => cases h

theorem readArguments_length_lt {s rest : Text} {vs : List Text}
    (h : readArguments s = some (vs, rest)) : rest.length < s.length := by
  fun_induction readArguments s generalizing vs rest with
  | case1 s v r hr ih =>
    obtain ⟨⟨ws, e⟩, he, hp⟩ := Option.map_eq_some_iff.1 h
    cases hp
    have h₁ := readArgument_length_lt hr
    have h₂ := ih he
    simp only [List.length_cons] at h₁
    omega
  | case2 s v r hr =>
    cases h
    have h₁ := readArgument_length_lt hr
    simp only [List.length_cons] at h₁
    omega
  | case3 => cases h

theorem readAtomParts_ok {s p rest : Text} {vs : List Text}
    (h : readAtomParts s = some (p, vs, rest)) :
    isPredicate p = true ∧ vs.all isValue = true := by
  unfold readAtomParts at h
  split at h
  · cases h
  · rename_i hp
    split at h
    · rename_i ha; cases h
      exact ⟨readPredicate_isPredicate hp, readArguments_isValue ha⟩
    · cases h
      exact ⟨readPredicate_isPredicate hp, rfl⟩
  · rename_i hp; cases h
    exact ⟨readPredicate_isPredicate hp, rfl⟩

theorem readAtomParts_length_lt {s p rest : Text} {vs : List Text}
    (h : readAtomParts s = some (p, vs, rest)) : rest.length < s.length := by
  unfold readAtomParts at h
  split at h
  · cases h
  · rename_i hp
    have h₁ := readPredicate_length_lt hp
    split at h
    · rename_i ha; cases h
      have h₂ := readArguments_length_lt ha
      simp only [List.length_cons] at h₁
      omega
    · cases h; exact h₁
  · rename_i hp; cases h
    exact readPredicate_length_lt hp

/-- The longest atom at the front of a text, and the rest. -/
def readAtom (s : Text) : Option (Atom × Text) :=
  match h : readAtomParts s with
  | some (p, vs, rest) => some (⟨p, vs, (readAtomParts_ok h).1, (readAtomParts_ok h).2⟩, rest)
  | none => none

theorem readAtom_eq_some_iff {s rest : Text} {a : Atom} :
    readAtom s = some (a, rest) ↔ readAtomParts s = some (a.predicate, a.arguments, rest) := by
  unfold readAtom
  split
  · rename_i p vs r h
    constructor
    · intro e; cases e; exact h
    · intro e
      cases a
      simp only [h, Option.some.injEq, Prod.mk.injEq] at e
      obtain ⟨rfl, rfl, rfl⟩ := e
      rfl
  · rename_i h
    simp [h]

theorem readAtom_length_lt {s rest : Text} {a : Atom} (h : readAtom s = some (a, rest)) :
    rest.length < s.length :=
  readAtomParts_length_lt (readAtom_eq_some_iff.1 h)

/-! ## Whole texts -/

namespace Atom

/-- Exactly one atom. -/
def parse (s : Text) : Except MalformedAtom Atom :=
  match readAtom s with
  | some (a, []) => .ok a
  | _ => .error ⟨s⟩

/-- The atom of the given parts, if their text reads back as these parts. -/
def ofParts (predicate : Text) (arguments : List Text) : Except MalformedAtom Atom :=
  match parse (atomText predicate arguments) with
  | .ok a =>
    if a.predicate = predicate ∧ a.arguments = arguments then .ok a
    else .error ⟨atomText predicate arguments⟩
  | .error e => .error e

end Atom

/-- Atoms of a batch, and its entries that are none. -/
structure ParsedAtoms where
  atoms : List Atom
  diagnostics : List MalformedAtom

def parseAll : List Text → ParsedAtoms
  | [] => ⟨[], []⟩
  | s :: texts =>
    let rest := parseAll texts
    match Atom.parse s with
    | .ok a => { rest with atoms := a :: rest.atoms }
    | .error e => { rest with diagnostics := e :: rest.diagnostics }

theorem mem_parseAll {a : Atom} {texts : List Text} :
    a ∈ (parseAll texts).atoms ↔ ∃ s ∈ texts, Atom.parse s = .ok a := by
  induction texts with
  | nil => simp [parseAll]
  | cons s texts ih =>
    simp only [List.mem_cons, exists_eq_or_imp, ← ih]
    cases h : Atom.parse s with
    | ok b => simp [parseAll, h, eq_comm]
    | error e => simp [parseAll, h]

end FactForm
