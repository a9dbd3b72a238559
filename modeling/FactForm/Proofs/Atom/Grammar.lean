import FactForm.Atom.Reader
import FactForm.Proofs.Value.Boundary

/-!
# FactForm.Proofs.Atom.Grammar

The grammar of atoms as a relation between texts and their parts, and the reader that decides it.

* `Padded`, `SpellsArguments`, `SpellsAtom` — how a value, an argument list and an atom are written.
* `readArguments_spells`, `readArguments_append` — the reader takes an argument list up to its closing
  parenthesis, whatever follows.
* `readAtomParts_append` — an atom in front of a text that cannot continue it is read as it stands.
* `Atom.parse_iff_spells` — a text is read as an atom exactly if it is spelled that way, and there is
  at most one way.
-/

namespace FactForm

/-- The value with blanks before and after it. -/
def Padded (v s : Text) : Prop :=
  ∃ lead trail, lead.all Text.isBlank = true ∧ trail.all Text.isBlank = true ∧
    s = lead ++ v ++ trail

/-- One value or more, each with blanks around it, between commas. -/
inductive SpellsArguments : List Text → Text → Prop where
  | last {v s : Text} : isValue v = true → Padded v s → SpellsArguments [v] s
  | more {v s t : Text} {vs : List Text} :
      isValue v = true → Padded v s → SpellsArguments vs t →
      SpellsArguments (v :: vs) (s ++ ',' :: t)

/-- A predicate alone, or with arguments in parentheses. -/
inductive SpellsAtom : Text → List Text → Text → Prop where
  | constant {p : Text} : isPredicate p = true → SpellsAtom p [] p
  | compound {p t : Text} {vs : List Text} :
      isPredicate p = true → SpellsArguments vs t → SpellsAtom p vs (p ++ '(' :: t ++ [')'])

namespace SpellsArguments

theorem isValue_of_mem {vs : List Text} {s : Text} (h : SpellsArguments vs s) :
    vs.all isValue = true := by
  induction h with
  | last hv _ => simp [hv]
  | more hv _ _ ih => simp [hv, ih]

theorem ne_nil {vs : List Text} {s : Text} (h : SpellsArguments vs s) : vs ≠ [] := by
  cases h <;> exact List.cons_ne_nil _ _

end SpellsArguments

theorem SpellsAtom.ne_nil {p s : Text} {vs : List Text} (h : SpellsAtom p vs s) : s ≠ [] := by
  cases h with
  | constant hp =>
    rintro rfl
    cases hp
  | compound _ _ => simp

/-! ## Blanks -/

theorem toNat_of_range {low high c : Char} (h : low.val ≤ c.val ∧ c.val ≤ high.val) :
    low.toNat ≤ c.toNat ∧ c.toNat ≤ high.toNat :=
  ⟨UInt32.le_iff_toNat_le.1 h.1, UInt32.le_iff_toNat_le.1 h.2⟩

theorem toNat_of_isWordChar {c : Char} (h : isWordChar c = true) :
    '0'.toNat ≤ c.toNat ∧ c.toNat ≤ 'z'.toNat := by
  have hcases : (((c.isUpper || c.isLower) || c.isDigit) || c == '_') = true := h
  rw [Bool.or_eq_true, Bool.or_eq_true, Bool.or_eq_true, beq_iff_eq] at hcases
  rcases hcases with ((hupper | hlower) | hdigit) | rfl
  · have hrange : 'A'.toNat ≤ c.toNat ∧ c.toNat ≤ 'Z'.toNat :=
      toNat_of_range (of_decide_eq_true hupper)
    exact ⟨Nat.le_trans (by decide) hrange.1, Nat.le_trans hrange.2 (by decide)⟩
  · have hrange : 'a'.toNat ≤ c.toNat ∧ c.toNat ≤ 'z'.toNat :=
      toNat_of_range ((Bool.and_eq_true_iff.1 hlower).imp of_decide_eq_true of_decide_eq_true)
    exact ⟨Nat.le_trans (by decide) hrange.1, hrange.2⟩
  · have hrange : '0'.toNat ≤ c.toNat ∧ c.toNat ≤ '9'.toNat :=
      toNat_of_range ((Bool.and_eq_true_iff.1 hdigit).imp of_decide_eq_true of_decide_eq_true)
    exact ⟨hrange.1, Nat.le_trans hrange.2 (by decide)⟩
  · decide

theorem isBlank_of_isWordChar {c : Char} (h : isWordChar c = true) : Text.isBlank c = false := by
  have hrange : 48 ≤ c.toNat ∧ c.toNat ≤ 122 := toNat_of_isWordChar h
  simp only [Text.isBlank, Bool.or_eq_false_iff, Bool.and_eq_false_iff, decide_eq_false_iff_not,
    beq_eq_false_iff_ne]
  omega

theorem isWordChar_of_isBlank {c : Char} (h : Text.isBlank c = true) : isWordChar c = false := by
  rw [Bool.eq_false_iff]
  intro hw
  rw [isBlank_of_isWordChar hw] at h
  cases h

theorem isLower_of_isBlank {c : Char} (h : Text.isBlank c = true) : c.isLower = false := by
  rw [Bool.eq_false_iff]
  intro hlower
  rw [isBlank_of_isWordChar (isWordChar_of_isLower hlower)] at h
  cases h

theorem ne_of_isBlank {c d : Char} (h : Text.isBlank c = true) (hd : Text.isBlank d = false) :
    c ≠ d := by
  rintro rfl
  rw [h] at hd
  cases hd

theorem isBlank_head_of_isValue {c : Char} {r : Text} (h : isValue (c :: r) = true) :
    Text.isBlank c = false := by
  by_cases hq : c = '"'
  · rw [hq]
    decide
  · have hw := isValue_all_isWordChar h (by simpa using hq)
    rw [List.all_cons, Bool.and_eq_true] at hw
    exact isBlank_of_isWordChar hw.1

theorem skipBlanks_value {v : Text} (h : isValue v = true) (s : Text) :
    Text.skipBlanks (v ++ s) = v ++ s := by
  cases v with
  | nil => cases h
  | cons c r => exact Text.skipBlanks_cons (isBlank_head_of_isValue h) (r ++ s)

theorem isBoundary_blanks {blanks s : Text} (h : blanks.all Text.isBlank = true)
    (hs : isBoundary s = true) : isBoundary (blanks ++ s) = true := by
  cases blanks with
  | nil => exact hs
  | cons c r =>
    rw [List.all_cons, Bool.and_eq_true] at h
    exact isBoundary_cons.2 (isWordChar_of_isBlank h.1)

/-! ## Arguments -/

theorem readArgument_padded {v s t : Text} {c : Char} (hv : isValue v = true) (hs : Padded v s)
    (hb : Text.isBlank c = false) (hw : isWordChar c = false) :
    readArgument (s ++ c :: t) = some (v, c :: t) := by
  obtain ⟨lead, trail, hlead, htrail, rfl⟩ := hs
  have hread : readValue (v ++ (trail ++ c :: t)) = some (v, trail ++ c :: t) :=
    readValue_append_boundary hv (isBoundary_blanks htrail (isBoundary_cons.2 hw))
  have hskip : Text.skipBlanks (lead ++ v ++ trail ++ c :: t) = v ++ (trail ++ c :: t) := by
    rw [List.append_assoc, List.append_assoc, Text.skipBlanks_append hlead, skipBlanks_value hv]
  have hrest : Text.skipBlanks (trail ++ c :: t) = c :: t := by
    rw [Text.skipBlanks_append htrail, Text.skipBlanks_cons hb]
  simp only [readArgument, hskip, hread, Option.map_some, hrest]

theorem readArgument_spells {s v rest : Text} (h : readArgument s = some (v, rest)) :
    isValue v = true ∧ ∃ t, Padded v t ∧ s = t ++ rest := by
  refine ⟨readArgument_isValue h, ?_⟩
  obtain ⟨⟨_, r⟩, hr, hp⟩ := Option.map_eq_some_iff.1 h
  cases hp
  obtain ⟨lead, hlead, hs⟩ := Text.exists_skipBlanks s
  obtain ⟨trail, htrail, hr'⟩ := Text.exists_skipBlanks r
  refine ⟨lead ++ v ++ trail, ⟨lead, trail, hlead, htrail, rfl⟩, ?_⟩
  calc s = lead ++ (v ++ r) := by rw [← readValue_append hr, ← hs]
    _ = lead ++ v ++ trail ++ Text.skipBlanks r := by
      rw [List.append_assoc, List.append_assoc, ← hr']

theorem readArguments_comma {s v r : Text} (h : readArgument s = some (v, ',' :: r)) :
    readArguments s = (readArguments r).map fun (vs, rest) => (v :: vs, rest) := by
  rw [readArguments]
  split
  · rename_i h'
    rw [h] at h'
    cases h'
    rfl
  · rename_i h'
    rw [h] at h'
    cases h'
  · rename_i h' _
    exact absurd h (h' v r)

theorem readArguments_close {s v r : Text} (h : readArgument s = some (v, ')' :: r)) :
    readArguments s = some ([v], r) := by
  rw [readArguments]
  split
  · rename_i h'
    rw [h] at h'
    cases h'
  · rename_i h'
    rw [h] at h'
    cases h'
    rfl
  · rename_i h'
    exact absurd h (h' v r)

theorem readArguments_append {vs : List Text} {s : Text} (h : SpellsArguments vs s) (rest : Text) :
    readArguments (s ++ ')' :: rest) = some (vs, rest) := by
  induction h with
  | last hv hs => exact readArguments_close (readArgument_padded hv hs (by decide) (by decide))
  | @more v s t vs hv hs _ ih =>
    have hread : readArgument (s ++ ',' :: (t ++ ')' :: rest)) =
        some (v, ',' :: (t ++ ')' :: rest)) :=
      readArgument_padded hv hs (by decide) (by decide)
    rw [List.append_assoc, List.cons_append, readArguments_comma hread, ih, Option.map_some]

theorem readArguments_spells {s rest : Text} {vs : List Text}
    (h : readArguments s = some (vs, rest)) :
    ∃ t, SpellsArguments vs t ∧ s = t ++ ')' :: rest := by
  fun_induction readArguments s generalizing vs rest with
  | case1 s v r hr ih =>
    obtain ⟨⟨ws, e⟩, he, hp⟩ := Option.map_eq_some_iff.1 h
    cases hp
    obtain ⟨hv, t, ht, rfl⟩ := readArgument_spells hr
    obtain ⟨u, hu, rfl⟩ := ih he
    exact ⟨t ++ ',' :: u, .more hv ht hu, by simp⟩
  | case2 s v r hr =>
    cases h
    obtain ⟨hv, t, ht, rfl⟩ := readArgument_spells hr
    exact ⟨t, .last hv ht, rfl⟩
  | case3 => cases h

/-! ## Atoms -/

theorem readPredicate_append_boundary {p rest : Text} (h : isPredicate p = true)
    (hr : isBoundary rest = true) : readPredicate (p ++ rest) = some (p, rest) := by
  unfold isPredicate at h
  split at h
  · rename_i r
    simp [readPredicate, readIdentifier_append_boundary h hr]
  · rename_i hne
    have hread := readIdentifier_append_boundary h hr
    cases p with
    | nil => cases h
    | cons c r =>
      have hc : c ≠ '-' := fun e => hne r (by rw [e])
      rw [List.cons_append] at hread ⊢
      unfold readPredicate
      split
      · rename_i e
        exact absurd (List.cons.inj e).1 hc
      · exact hread

theorem not_mem_of_isPredicate {p : Text} {c : Char} (h : isPredicate p = true)
    (hw : isWordChar c = false) (hminus : c ≠ '-') : c ∉ p := by
  have hword : ∀ s : Text, isIdentifier s = true → c ∉ s := by
    intro s hs hmem
    rw [List.all_eq_true.1 (isIdentifier_all_isWordChar hs) _ hmem] at hw
    cases hw
  unfold isPredicate at h
  split at h
  · rw [List.mem_cons, not_or]
    exact ⟨hminus, hword _ h⟩
  · exact hword _ h

/-- Such a text cannot continue an atom in front of it. -/
def endsAtom (s : Text) : Bool := isBoundary s && s.head? != some '('

theorem readAtomParts_constant {p rest : Text} (hp : isPredicate p = true)
    (hr : endsAtom rest = true) : readAtomParts (p ++ rest) = some (p, [], rest) := by
  simp only [endsAtom, Bool.and_eq_true, bne_iff_ne] at hr
  have hread := readPredicate_append_boundary hp hr.1
  unfold readAtomParts
  split
  · rename_i h
    rw [hread] at h
    cases h
  · rename_i h
    rw [hread] at h
    cases h
    exact absurd rfl hr.2
  · rename_i h
    rw [hread] at h
    cases h
    rfl

theorem readAtomParts_compound {p s : Text} {vs : List Text} (hp : isPredicate p = true)
    (hs : SpellsArguments vs s) (rest : Text) :
    readAtomParts (p ++ '(' :: (s ++ ')' :: rest)) = some (p, vs, rest) := by
  have hb : isBoundary ('(' :: (s ++ ')' :: rest)) = true := isBoundary_cons.2 (by decide)
  unfold readAtomParts
  simp only [readPredicate_append_boundary hp hb, readArguments_append hs]

theorem readAtomParts_append {p s rest : Text} {vs : List Text} (h : SpellsAtom p vs s)
    (hr : endsAtom rest = true) : readAtomParts (s ++ rest) = some (p, vs, rest) := by
  cases h with
  | constant hp => exact readAtomParts_constant hp hr
  | compound hp hs =>
    rw [List.append_assoc, List.append_assoc, List.cons_append]
    exact readAtomParts_compound hp hs rest

theorem readAtom_eq_none_iff {s : Text} : readAtom s = none ↔ readPredicate s = none := by
  constructor
  · intro h
    cases hp : readPredicate s with
    | none => rfl
    | some parts =>
      obtain ⟨p, r⟩ := parts
      obtain ⟨vs, rest, hparts⟩ : ∃ vs rest, readAtomParts s = some (p, vs, rest) := by
        unfold readAtomParts
        split
        · rename_i hread
          rw [hp] at hread
          cases hread
        · rename_i hread
          rw [hp] at hread
          cases hread
          split
          · exact ⟨_, _, rfl⟩
          · exact ⟨_, _, rfl⟩
        · rename_i hread
          rw [hp] at hread
          cases hread
          exact ⟨_, _, rfl⟩
      have hok := readAtomParts_ok hparts
      rw [(readAtom_eq_some_iff (a := ⟨p, vs, hok.1, hok.2⟩)).2 hparts] at h
      cases h
  · intro h
    rw [Option.eq_none_iff_forall_ne_some]
    rintro ⟨a, rest⟩ ha
    have hparts := readAtom_eq_some_iff.1 ha
    simp only [readAtomParts, h] at hparts
    cases hparts

theorem readAtom_eq_none {c : Char} (hlower : c.isLower = false) (hminus : c ≠ '-') (r : Text) :
    readAtom (c :: r) = none := by
  rw [readAtom_eq_none_iff]
  unfold readPredicate
  split
  · rename_i e
    exact absurd (List.cons.inj e).1 hminus
  · simp [readIdentifier, hlower]

theorem isLower_of_readAtom_eq_none {c : Char} {r : Text} (h : readAtom (c :: r) = none) :
    c.isLower = false := by
  rw [readAtom_eq_none_iff] at h
  unfold readPredicate at h
  split at h
  · rename_i e
    rw [(List.cons.inj e).1]
    rfl
  · simpa [readIdentifier] using h

theorem readAtomParts_spells {p s rest : Text} {vs : List Text}
    (h : readAtomParts s = some (p, vs, rest)) : ∃ t, SpellsAtom p vs t ∧ s = t ++ rest := by
  have hp := (readAtomParts_ok h).1
  unfold readAtomParts at h
  split at h
  · cases h
  · rename_i hread
    split at h
    · rename_i hargs
      cases h
      obtain ⟨t, ht, rfl⟩ := readArguments_spells hargs
      refine ⟨p ++ '(' :: t ++ [')'], .compound hp ht, ?_⟩
      rw [readPredicate_append hread]
      simp
    · cases h
      exact ⟨p, .constant hp, readPredicate_append hread⟩
  · rename_i hread
    cases h
    exact ⟨p, .constant hp, readPredicate_append hread⟩

namespace Atom

theorem parse_eq_ok_iff {s : Text} {a : Atom} :
    parse s = .ok a ↔ readAtomParts s = some (a.predicate, a.arguments, []) := by
  rw [← readAtom_eq_some_iff, parse]
  constructor
  · intro h
    split at h
    · rename_i ha
      cases h
      exact ha
    · cases h
  · intro h
    rw [h]

theorem parse_eq_ok_iff_spells {s : Text} {a : Atom} :
    parse s = .ok a ↔ SpellsAtom a.predicate a.arguments s := by
  rw [parse_eq_ok_iff]
  constructor
  · intro h
    obtain ⟨t, ht, rfl⟩ := readAtomParts_spells h
    rwa [List.append_nil]
  · intro h
    have hread : readAtomParts (s ++ []) = some (a.predicate, a.arguments, []) :=
      readAtomParts_append h rfl
    rwa [List.append_nil] at hread

theorem parse_error {s : Text} {e : MalformedAtom} (h : parse s = .error e) : e = ⟨s⟩ := by
  unfold parse at h
  split at h
  · cases h
  · cases h
    rfl

theorem exists_of_spells {p s : Text} {vs : List Text} (h : SpellsAtom p vs s) :
    ∃ a : Atom, a.predicate = p ∧ a.arguments = vs := by
  cases h with
  | constant hp => exact ⟨⟨p, [], hp, rfl⟩, rfl, rfl⟩
  | compound hp hs => exact ⟨⟨p, vs, hp, hs.isValue_of_mem⟩, rfl, rfl⟩

/-- A text is read as an atom exactly if it is spelled as one. There is at most one way to spell it,
and if there is none the error carries the text. -/
theorem parse_iff_spells (s : Text) :
    (∀ p vs, (∃ a, parse s = .ok a ∧ a.predicate = p ∧ a.arguments = vs) ↔ SpellsAtom p vs s) ∧
    (∀ p vs q ws, SpellsAtom p vs s → SpellsAtom q ws s → p = q ∧ vs = ws) ∧
    (parse s = .error ⟨s⟩ ↔ ∀ p vs, ¬ SpellsAtom p vs s) := by
  have hiff : ∀ p vs,
      (∃ a, parse s = .ok a ∧ a.predicate = p ∧ a.arguments = vs) ↔ SpellsAtom p vs s := by
    intro p vs
    constructor
    · rintro ⟨a, ha, rfl, rfl⟩
      exact parse_eq_ok_iff_spells.1 ha
    · intro h
      obtain ⟨a, rfl, rfl⟩ := exists_of_spells h
      exact ⟨a, parse_eq_ok_iff_spells.2 h, rfl, rfl⟩
  refine ⟨hiff, ?_, ?_⟩
  · intro p vs q ws hp hq
    obtain ⟨a, ha, rfl, rfl⟩ := (hiff p vs).2 hp
    obtain ⟨b, hb, rfl, rfl⟩ := (hiff q ws).2 hq
    rw [ha] at hb
    cases hb
    exact ⟨rfl, rfl⟩
  · constructor
    · intro herr p vs h
      obtain ⟨a, ha, _⟩ := (hiff p vs).2 h
      rw [herr] at ha
      cases ha
    · intro hnone
      cases h : parse s with
      | error e => rw [parse_error h]
      | ok a => exact absurd (parse_eq_ok_iff_spells.1 h) (hnone _ _)

end Atom
end FactForm
