import FactForm.Proofs.Program.Occurrence

/-!
# FactForm.Proofs.Program.Statements

Programs made of statements: facts, and rules with a head and a body, laid out over any number of
lines. The search for facts does not read rules. It passes over one because nothing that stands at
the start of a statement inside it is followed by a period, and where this fails it takes a part of
the rule as a fact: the last atom of a body that begins a line, or what stands behind a period or a
line break inside a string.

* `Rule`, `Statement`, `Program` — how programs are written.
* `factTexts`, `factSpans` — the facts of a program and where they stand.
* `InRule` — the positions inside rules.
* `map_slice_factSpans` — the facts are the texts between their positions.
* `Program.leftmost_factSpans_iff` — they are the leftmost facts exactly if no fact starts inside a
  rule.
-/

namespace FactForm

/-! ## Statements -/

structure Blanks where
  text : Text
  all_isBlank : text.all Text.isBlank = true

/-- One way to write an atom. -/
structure AtomSpelling where
  atom : Atom
  text : Text
  spells : SpellsAtom atom.predicate atom.arguments text

def AtomSpelling.ofAtom (a : Atom) : AtomSpelling := ⟨a, a.text, a.spells_text⟩

/-- An atom of a body, with the blanks around it. -/
structure PaddedAtom where
  lead : Blanks
  spelling : AtomSpelling
  trail : Blanks

def PaddedAtom.text (a : PaddedAtom) : Text := a.lead.text ++ a.spelling.text ++ a.trail.text

/-- A head, the sign `:-`, and one atom or more between commas. -/
structure Rule where
  head : AtomSpelling
  gap : Blanks
  /-- The atoms of the body in front of the last. -/
  front : List PaddedAtom
  last : PaddedAtom

/-- The part of a rule behind its sign, up to the last atom. -/
def bodyFront (atoms : List PaddedAtom) : Text := atoms.flatMap (·.text ++ [','])

def Rule.text (r : Rule) : Text :=
  r.head.text ++ (r.gap.text ++ ':' :: '-' :: (bodyFront r.front ++ (r.last.text ++ ['.'])))

inductive Statement where
  | fact (spelling : AtomSpelling)
  | rule (rule : Rule)

def Statement.text : Statement → Text
  | .fact a => a.text ++ ['.']
  | .rule r => r.text

/-- Statements, each with the blanks in front of it. -/
def layoutText (statements : List (Blanks × Statement)) : Text :=
  statements.flatMap fun (blanks, statement) => blanks.text ++ statement.text

structure Program where
  statements : List (Blanks × Statement)
  trail : Blanks

namespace Program

def text (p : Program) : Text := layoutText p.statements ++ p.trail.text

end Program

def factTexts (statements : List (Blanks × Statement)) : List Text :=
  statements.filterMap fun
    | (_, .fact a) => some a.text
    | (_, .rule _) => none

/-- The positions between which the facts stand, if the statements begin at position `k`. -/
def factSpans (k : Nat) : List (Blanks × Statement) → List (Nat × Nat)
  | [] => []
  | (blanks, .fact a) :: rest =>
    let start := k + blanks.text.length
    (start, start + a.text.length) :: factSpans (start + a.text.length + 1) rest
  | (blanks, .rule r) :: rest => factSpans (k + blanks.text.length + r.text.length) rest

/-- The position lies inside a rule, if the statements begin at position `k`. -/
def InRule (i k : Nat) : List (Blanks × Statement) → Prop
  | [] => False
  | (blanks, .fact a) :: rest => InRule i (k + blanks.text.length + a.text.length + 1) rest
  | (blanks, .rule r) :: rest =>
    let start := k + blanks.text.length
    (start ≤ i ∧ i < start + r.text.length) ∨ InRule i (start + r.text.length) rest

variable {s front t rest : Text} {i k : Nat} {statements : List (Blanks × Statement)}

theorem layoutText_fact (blanks : Blanks) (a : AtomSpelling) :
    layoutText ((blanks, .fact a) :: statements) ++ rest =
      blanks.text ++ (a.text ++ '.' :: (layoutText statements ++ rest)) := by
  simp [layoutText, Statement.text]

theorem layoutText_rule (blanks : Blanks) (r : Rule) :
    layoutText ((blanks, .rule r) :: statements) ++ rest =
      blanks.text ++ (r.text ++ (layoutText statements ++ rest)) := by
  simp [layoutText, Statement.text]

/-! ## Facts and rules at their places -/

theorem le_of_mem_factSpans {x : Nat × Nat} (h : x ∈ factSpans k statements) : k ≤ x.1 := by
  induction statements generalizing k with
  | nil => cases h
  | cons entry statements ih =>
    obtain ⟨blanks, a | r⟩ := entry
    · rcases List.mem_cons.1 h with rfl | h
      · exact Nat.le_add_right _ _
      · have hbehind := ih h
        omega
    · have hbehind := ih h
      omega

theorem le_of_inRule (h : InRule i k statements) : k ≤ i := by
  induction statements generalizing k with
  | nil => cases h
  | cons entry statements ih =>
    obtain ⟨blanks, a | r⟩ := entry
    · have hbehind := ih h
      omega
    · rcases h with h | h
      · omega
      · have hbehind := ih h
        omega

theorem lt_or_le_of_inRule {x : Nat × Nat} (hi : InRule i k statements)
    (hx : x ∈ factSpans k statements) : i < x.1 ∨ x.2 ≤ i := by
  induction statements generalizing k with
  | nil => cases hx
  | cons entry statements ih =>
    obtain ⟨blanks, a | r⟩ := entry
    · have hbehind : InRule i (k + blanks.text.length + a.text.length + 1) statements := hi
      rcases List.mem_cons.1 hx with rfl | hx
      · have hle := le_of_inRule hbehind
        exact .inr (by omega)
      · exact ih hbehind hx
    · have hbehind : x ∈ factSpans (k + blanks.text.length + r.text.length) statements := hx
      rcases hi with hi | hi
      · have hle := le_of_mem_factSpans hbehind
        exact .inl (by omega)
      · exact ih hi hbehind

theorem map_slice_factSpans (front rest : Text) :
    (factSpans front.length statements).map
        (fun x => slice (front ++ (layoutText statements ++ rest)) x.1 x.2) =
      factTexts statements := by
  induction statements generalizing front with
  | nil => rfl
  | cons entry statements ih =>
    obtain ⟨blanks, a | r⟩ := entry
    · have hbehind := ih (front ++ blanks.text ++ a.text ++ ['.'])
      have hslice := slice_append (front ++ blanks.text) a.text
        ('.' :: (layoutText statements ++ rest))
      rw [layoutText_fact]
      simp only [List.append_assoc, List.length_append, List.length_singleton, List.singleton_append,
        ← Nat.add_assoc] at hbehind hslice ⊢
      rw [factSpans, List.map_cons, hslice, hbehind]
      rfl
    · have hbehind := ih (front ++ blanks.text ++ r.text)
      rw [layoutText_rule]
      simp only [List.append_assoc, List.length_append, ← Nat.add_assoc] at hbehind ⊢
      exact hbehind

theorem startsStatement_blanks {blanks : Text} (hb : blanks.all Text.isBlank = true)
    (h : StartsStatement front) : StartsStatement (front ++ blanks) := by
  induction blanks generalizing front with
  | nil => rwa [List.append_nil]
  | cons c blanks ih =>
    rw [List.all_cons, Bool.and_eq_true] at hb
    have hnext := ih hb.2 (startsStatement_snoc.2 (.inr ⟨h, hb.1⟩))
    rwa [List.append_assoc] at hnext

theorem leftmost_blanks {blanks : Text} {spans : List (Nat × Nat)}
    (hb : blanks.all Text.isBlank = true) (hs : s = front ++ (blanks ++ t)) (hk : k = front.length)
    (h : Leftmost s (k + blanks.length) spans) : Leftmost s k spans := by
  induction blanks generalizing front k with
  | nil => exact h
  | cons c blanks ih =>
    rw [List.all_cons, Bool.and_eq_true] at hb
    have hs' : s = front ++ [c] ++ (blanks ++ t) := by simp [hs]
    refine leftmost_skip hs hk (fun _ => readFact_blank hb.1 _) (ih hb.2 hs' (by simp [hk]) ?_)
    rwa [List.length_cons, Nat.add_comm blanks.length, ← Nat.add_assoc] at h

theorem startsStatement_rule (front : Text) (r : Rule) : StartsStatement (front ++ r.text) := by
  have hsplit : front ++ r.text = front ++ r.head.text ++ r.gap.text ++ [':', '-'] ++
      bodyFront r.front ++ r.last.text ++ ['.'] := by simp [Rule.text]
  rw [hsplit]
  exact startsStatement_snoc.2 (.inl rfl)

/-- If no fact starts inside a rule, the leftmost facts are those of the statements. The induction is
on the statements, with what is in front of them at the start of a statement. -/
theorem leftmost_factSpans {trail : Blanks} (hs : s = front ++ (layoutText statements ++ trail.text))
    (hk : k = front.length) (hstart : StartsStatement front)
    (hnone : ∀ i j, FactAt s i j → ¬ InRule i k statements) :
    Leftmost s k (factSpans k statements) := by
  induction statements generalizing front k with
  | nil =>
    have hs' : s = front ++ (trail.text ++ []) := by simp [hs, layoutText]
    refine leftmost_blanks trail.all_isBlank hs' hk (.done fun i j hfact => ?_)
    have hlt := Nat.lt_trans hfact.lt hfact.lt_length
    simpa [hs', hk] using hlt
  | cons entry statements ih =>
    obtain ⟨blanks, a | r⟩ := entry
    · rw [layoutText_fact] at hs
      have hk' : k + blanks.text.length = (front ++ blanks.text).length := by simp [hk]
      have hread : readFact (a.text ++ '.' :: (layoutText statements ++ trail.text)) =
          some (a.text, layoutText statements ++ trail.text) :=
        readFact_eq_some_iff.2 ⟨⟨_, _, a.spells⟩, rfl⟩
      have hfact : FactAt s (k + blanks.text.length) (k + blanks.text.length + a.text.length) := by
        rw [hs, hk', ← List.append_assoc]
        exact factAt_iff.2 ⟨startsStatement_blanks blanks.all_isBlank hstart, a.text, _, hread, rfl⟩
      have hperiod : s = front ++ blanks.text ++ a.text ++
          '.' :: (layoutText statements ++ trail.text) := by simp [hs]
      have hnext : s = front ++ blanks.text ++ a.text ++ ['.'] ++
          (layoutText statements ++ trail.text) := by simp [hs]
      have hbehind := ih hnext (k := k + blanks.text.length + a.text.length + 1)
        (by simp [hk, Nat.add_assoc]) (startsStatement_snoc.2 (.inl rfl)) hnone
      have hend := leftmost_skip hperiod (by simp [hk, Nat.add_assoc])
        (fun _ => readFact_period _) hbehind
      exact leftmost_blanks blanks.all_isBlank hs hk
        (.take hfact (Nat.le_refl _) (fun _ _ _ hi => hi) hend)
    · rw [layoutText_rule] at hs
      have hnext : s = front ++ blanks.text ++ r.text ++ (layoutText statements ++ trail.text) := by
        simp [hs]
      have hbehind := ih hnext (k := k + blanks.text.length + r.text.length)
        (by simp [hk, Nat.add_assoc]) (startsStatement_rule _ r)
        (fun i j hfact hi => hnone i j hfact (.inr hi))
      refine leftmost_blanks blanks.all_isBlank hs hk
        (hbehind.of_le (Nat.le_add_right _ _) ?_)
      intro i j hfact hi
      refine Nat.le_of_not_lt fun hlt => ?_
      exact hnone i j hfact (.inl ⟨hi, hlt⟩)

namespace Program

/-- The leftmost facts of a program are its own facts exactly if no fact starts inside a rule. -/
theorem leftmost_factSpans_iff (p : Program) :
    Leftmost p.text 0 (factSpans 0 p.statements) ↔
      ∀ i j, FactAt p.text i j → ¬ InRule i 0 p.statements := by
  constructor
  · intro h i j hfact hi
    rcases h.mem_or_overlaps hfact (Nat.zero_le i) with hmem | ⟨x, hmem, hlt, hgt⟩
    · have hlt := hfact.lt
      rcases lt_or_le_of_inRule hi hmem with h | h <;> omega
    · rcases lt_or_le_of_inRule hi hmem with h | h <;> omega
  · intro hnone
    exact leftmost_factSpans (List.nil_append _).symm rfl startsStatement_nil hnone

end Program

end FactForm
