import FactForm.Proofs.Program.Statements

/-!
# FactForm.Proofs.Program.Rules

How the search for facts passes over a rule. Inside a rule a statement seems to start behind a line
break, and behind a period or a line break in a string. If the strings of a rule have none, then the
only atom of it that can be taken is the last one, since no other stands in front of a period.

* `isUnbroken` — a text without periods and line breaks.
* `factsFrom_blanks`, `factsFrom_value`, `factsFrom_arguments`, `factsFrom_atom` — what is passed over,
  and whether a statement may start behind it.
* `factsFrom_rule` — of a rule the last atom is taken if it begins a line.
* `factsFrom_layoutText`, `takenTexts_eq_factTexts_iff` — what is taken from statements, and when it is
  their facts.
* `Program.programFacts_text` — what is taken from a program.
-/

namespace FactForm

/-- No statement can seem to start inside such a text. -/
def isUnbroken (s : Text) : Bool := s.all fun c => !endsStatement c

def isLineBreak (c : Char) : Bool := c == '\n' || c == '\r'

/-- Such a text ends an atom in front of it and does not make it a fact. -/
def endsNoFact (s : Text) : Bool := endsAtom s && s.head? != some '.'

variable {opened : Bool} {c : Char} {p s t v blanks : Text} {vs : List Text}

theorem isUnbroken_cons : isUnbroken (c :: s) = true ↔ endsStatement c = false ∧ isUnbroken s = true := by
  simp [isUnbroken]

theorem endsStatement_of_isBlank (h : Text.isBlank c = true) : endsStatement c = isLineBreak c := by
  have hdot : (c == '.') = false := beq_eq_false_iff_ne.2 (ne_of_isBlank h rfl)
  rw [endsStatement, hdot, Bool.false_or]
  rfl

theorem endsNoFact_blank (h : Text.isBlank c = true) (t : Text) : endsNoFact (c :: t) = true := by
  have hparen : c ≠ '(' := ne_of_isBlank h rfl
  have hdot : c ≠ '.' := ne_of_isBlank h rfl
  simp [endsNoFact, endsAtom, isBoundary, isWordChar_of_isBlank h, hparen, hdot]

theorem endsNoFact_blanks (hb : blanks.all Text.isBlank = true) (ht : endsNoFact t = true) :
    endsNoFact (blanks ++ t) = true := by
  cases blanks with
  | nil => exact ht
  | cons c blanks =>
    rw [List.all_cons, Bool.and_eq_true] at hb
    exact endsNoFact_blank hb.1 (blanks ++ t)

/-! ## Tokens -/

theorem factsFrom_blanks (hb : blanks.all Text.isBlank = true) :
    factsFrom opened (blanks ++ t) = factsFrom (opened || blanks.any isLineBreak) t := by
  induction blanks generalizing opened with
  | nil => simp
  | cons c blanks ih =>
    rw [List.all_cons, Bool.and_eq_true] at hb
    rw [List.cons_append, factsFrom_skip fun _ => readFact_blank hb.1 _, ih hb.2,
      endsStatement_of_isBlank hb.1, hb.1, Bool.and_true, List.any_cons,
      Bool.or_comm (isLineBreak c), Bool.or_assoc]

theorem factsFrom_unbroken (h : isUnbroken s = true) :
    factsFrom false (s ++ t) = factsFrom false t := by
  induction s with
  | nil => rfl
  | cons c s ih =>
    obtain ⟨hc, hs⟩ := isUnbroken_cons.1 h
    rw [List.cons_append, factsFrom_skip (fun h => by cases h), hc, Bool.false_and, Bool.or_false,
      ih hs]

theorem factsFrom_token (hc : Text.isBlank c = false) (h : isUnbroken (c :: s) = true)
    (hnone : opened = true → readFact (c :: (s ++ t)) = none) :
    factsFrom opened (c :: (s ++ t)) = factsFrom false t := by
  obtain ⟨hends, hs⟩ := isUnbroken_cons.1 h
  rw [factsFrom_skip hnone, hends, hc, Bool.and_false, Bool.or_false, factsFrom_unbroken hs]

theorem factsFrom_sign (hlower : c.isLower = false) (hminus : c ≠ '-')
    (hc : Text.isBlank c = false) (hends : endsStatement c = false) :
    factsFrom opened (c :: t) = factsFrom false t := by
  have hunbroken : isUnbroken [c] = true := isUnbroken_cons.2 ⟨hends, rfl⟩
  exact factsFrom_token hc hunbroken fun _ => readFact_eq_none hlower hminus t

theorem readFact_eq_none_of_spells (h : SpellsAtom p vs s) (ht : endsNoFact t = true) :
    readFact (s ++ t) = none := by
  rw [endsNoFact, Bool.and_eq_true, bne_iff_ne] at ht
  obtain ⟨a, rfl, rfl⟩ := Atom.exists_of_spells h
  have hread : readAtom (s ++ t) = some (a, t) :=
    readAtom_eq_some_iff.2 (readAtomParts_append h ht.1)
  unfold readFact
  split
  · rename_i hfact
    rw [hread] at hfact
    cases hfact
    exact absurd rfl ht.2
  · rfl

theorem readFact_value (h : isValue v = true) (ht : endsNoFact t = true) :
    readFact (v ++ t) = none := by
  by_cases hi : isIdentifier v = true
  · exact readFact_eq_none_of_spells (.constant (isPredicate_of_isIdentifier hi)) ht
  · cases v with
    | nil => cases h
    | cons c r =>
      have hchar : c.isLower = false ∧ c ≠ '-' := by
        rw [isValue, Bool.eq_false_iff.2 hi, Bool.false_or, Bool.or_eq_true] at h
        rcases h with hn | hq
        · rcases isNumber_cons.1 hn with ⟨rfl, _⟩ | ⟨_, hd, _⟩
          · decide
          · refine ⟨isLower_of_isDigit hd, ?_⟩
            rintro rfl
            revert hd
            decide
        · unfold isQuotedString at hq
          split at hq
          · rename_i heq
            cases heq
            decide
          · cases hq
      exact readFact_eq_none hchar.1 hchar.2 _

theorem factsFrom_value (h : isValue v = true) (hv : isUnbroken v = true)
    (ht : endsNoFact t = true) : factsFrom opened (v ++ t) = factsFrom false t := by
  cases v with
  | nil => cases h
  | cons c r => exact factsFrom_token (isBlank_head_of_isValue h) hv fun _ => readFact_value h ht

/-! ## Atoms -/

theorem factsFrom_padded (h : isValue v = true) (hv : isUnbroken v = true) (hs : Padded v s)
    (hc : c = ',' ∨ c = ')') : factsFrom opened (s ++ c :: t) = factsFrom false t := by
  obtain ⟨lead, trail, hlead, htrail, rfl⟩ := hs
  have hsign : endsNoFact (c :: t) = true := by rcases hc with rfl | rfl <;> rfl
  have hskip : ∀ o, factsFrom o (c :: t) = factsFrom false t := by
    intro o
    rcases hc with rfl | rfl <;> exact factsFrom_sign rfl (by decide) rfl rfl
  rw [List.append_assoc, List.append_assoc, factsFrom_blanks hlead,
    factsFrom_value h hv (endsNoFact_blanks htrail hsign), factsFrom_blanks htrail, hskip]

theorem factsFrom_arguments (h : SpellsArguments vs s) (hvs : vs.all isUnbroken = true) :
    factsFrom opened (s ++ ')' :: t) = factsFrom false t := by
  induction h generalizing opened with
  | last hv hs =>
    rw [List.all_cons, Bool.and_eq_true] at hvs
    exact factsFrom_padded hv hvs.1 hs (.inr rfl)
  | more hv hs _ ih =>
    rw [List.all_cons, Bool.and_eq_true] at hvs
    rw [List.append_assoc, List.cons_append, factsFrom_padded hv hvs.1 hs (.inl rfl), ih hvs.2]

theorem endsStatement_of_isWordChar (h : isWordChar c = true) : endsStatement c = false := by
  rw [Bool.eq_false_iff]
  intro hends
  simp only [endsStatement, Bool.or_eq_true, beq_iff_eq] at hends
  rcases hends with (rfl | rfl) | rfl <;> exact absurd h (by decide)

theorem isUnbroken_identifier (h : isIdentifier p = true) : isUnbroken p = true := by
  rw [isUnbroken, List.all_eq_true]
  intro c hc
  rw [endsStatement_of_isWordChar (List.all_eq_true.1 (isIdentifier_all_isWordChar h) c hc)]
  rfl

theorem isPredicate_cons (h : isPredicate (c :: p) = true) :
    Text.isBlank c = false ∧ isUnbroken (c :: p) = true := by
  unfold isPredicate at h
  split at h
  · rename_i heq
    cases heq
    exact ⟨rfl, isUnbroken_cons.2 ⟨rfl, isUnbroken_identifier h⟩⟩
  · have hlower := (isIdentifier_cons.1 h).1
    exact ⟨isBlank_of_isWordChar (isWordChar_of_isLower hlower), isUnbroken_identifier h⟩

theorem factsFrom_predicate (h : isPredicate p = true)
    (hnone : opened = true → readFact (p ++ t) = none) :
    factsFrom opened (p ++ t) = factsFrom false t := by
  cases p with
  | nil => cases h
  | cons c p =>
    obtain ⟨hc, hp⟩ := isPredicate_cons h
    exact factsFrom_token hc hp hnone

theorem factsFrom_atom (h : SpellsAtom p vs s) (hvs : vs.all isUnbroken = true)
    (hnone : opened = true → readFact (s ++ t) = none) :
    factsFrom opened (s ++ t) = factsFrom false t := by
  cases h with
  | constant hp => exact factsFrom_predicate hp hnone
  | @compound args _ hp hs =>
    have hsplit : p ++ '(' :: args ++ [')'] ++ t = p ++ '(' :: (args ++ ')' :: t) := by simp
    rw [hsplit] at hnone ⊢
    rw [factsFrom_predicate hp hnone, factsFrom_sign rfl (by decide) rfl rfl,
      factsFrom_arguments hs hvs]

/-! ## Rules -/

/-- The strings of the atom have no period and no line break. -/
def AtomSpelling.isUnbroken (a : AtomSpelling) : Bool := a.atom.arguments.all FactForm.isUnbroken

theorem factsFrom_spelling {a : AtomSpelling} (h : a.isUnbroken = true) (ht : endsNoFact t = true) :
    factsFrom opened (a.text ++ t) = factsFrom false t :=
  factsFrom_atom a.spells h fun _ => readFact_eq_none_of_spells a.spells ht

namespace Rule

def isUnbroken (r : Rule) : Bool :=
  r.head.isUnbroken && r.front.all (·.spelling.isUnbroken) && r.last.spelling.isUnbroken

/-- The last atom begins a line and stands right before the period. -/
def endsOnNewLine (r : Rule) : Bool :=
  r.last.lead.text.any isLineBreak && r.last.trail.text.isEmpty

/-- What is taken from a rule whose strings are unbroken. -/
def taken (r : Rule) : List Text := if r.endsOnNewLine then [r.last.spelling.text] else []

end Rule

theorem factsFrom_bodyFront {atoms : List PaddedAtom}
    (h : atoms.all (·.spelling.isUnbroken) = true) :
    factsFrom false (bodyFront atoms ++ t) = factsFrom false t := by
  induction atoms with
  | nil => rfl
  | cons a atoms ih =>
    rw [List.all_cons, Bool.and_eq_true] at h
    have hsplit : bodyFront (a :: atoms) ++ t =
        a.lead.text ++ (a.spelling.text ++ (a.trail.text ++ ',' :: (bodyFront atoms ++ t))) := by
      simp [bodyFront, PaddedAtom.text]
    have hcomma : endsNoFact (a.trail.text ++ ',' :: (bodyFront atoms ++ t)) = true :=
      endsNoFact_blanks a.trail.all_isBlank rfl
    rw [hsplit, factsFrom_blanks a.lead.all_isBlank, factsFrom_spelling h.1 hcomma,
      factsFrom_blanks a.trail.all_isBlank, factsFrom_sign rfl (by decide) rfl rfl, ih h.2]

theorem factsFrom_period : factsFrom opened ('.' :: t) = factsFrom true t :=
  factsFrom_skip fun _ => readFact_period t

theorem factsFrom_last {r : Rule} (h : r.last.spelling.isUnbroken = true) :
    factsFrom false (r.last.text ++ '.' :: t) = r.taken ++ factsFrom true t := by
  have hsplit : r.last.text ++ '.' :: t =
      r.last.lead.text ++ (r.last.spelling.text ++ (r.last.trail.text ++ '.' :: t)) := by
    simp [PaddedAtom.text]
  rw [hsplit, factsFrom_blanks r.last.lead.all_isBlank, Bool.false_or]
  cases htrail : r.last.trail.text with
  | nil =>
    cases hlead : r.last.lead.text.any isLineBreak with
    | true =>
      have htaken : r.taken = [r.last.spelling.text] := by
        simp [Rule.taken, Rule.endsOnNewLine, hlead, htrail]
      rw [List.nil_append, factsFrom_spells r.last.spelling.spells, htaken, List.singleton_append]
    | false =>
      have htaken : r.taken = [] := by simp [Rule.taken, Rule.endsOnNewLine, hlead]
      rw [List.nil_append, factsFrom_atom r.last.spelling.spells h (fun h => by cases h),
        factsFrom_period, htaken, List.nil_append]
  | cons c trail =>
    -- A blank in front of the period is enough: the atom is read and is no fact.
    have hblank := r.last.trail.all_isBlank
    rw [htrail] at hblank
    have htaken : r.taken = [] := by simp [Rule.taken, Rule.endsOnNewLine, htrail]
    have hends : endsNoFact (c :: trail ++ '.' :: t) = true :=
      endsNoFact_blank (List.all_eq_true.1 hblank c List.mem_cons_self) _
    rw [factsFrom_spelling h hends, factsFrom_blanks hblank, factsFrom_period, htaken,
      List.nil_append]

/-- The sign of a rule is passed over: behind its colon no statement starts. -/
theorem factsFrom_ruleSign : factsFrom opened (':' :: '-' :: t) = factsFrom false t := by
  have hminus : isUnbroken ['-'] = true := rfl
  rw [factsFrom_sign rfl (by decide) rfl rfl]
  exact factsFrom_unbroken hminus

/-- Of a rule with unbroken strings the last atom is taken if it begins a line, and nothing else. -/
theorem factsFrom_rule {r : Rule} (h : r.isUnbroken = true) :
    factsFrom true (r.text ++ t) = r.taken ++ factsFrom true t := by
  rw [Rule.isUnbroken, Bool.and_eq_true, Bool.and_eq_true] at h
  obtain ⟨⟨hhead, hfront⟩, hlast⟩ := h
  have hsplit : r.text ++ t = r.head.text ++ (r.gap.text ++ ':' :: '-' ::
      (bodyFront r.front ++ (r.last.text ++ '.' :: t))) := by simp [Rule.text]
  have hsign : endsNoFact (r.gap.text ++ ':' :: '-' ::
      (bodyFront r.front ++ (r.last.text ++ '.' :: t))) = true :=
    endsNoFact_blanks r.gap.all_isBlank rfl
  rw [hsplit, factsFrom_spelling hhead hsign, factsFrom_blanks r.gap.all_isBlank,
    factsFrom_ruleSign, factsFrom_bodyFront hfront, factsFrom_last hlast]

/-! ## Programs -/

def rulesOf (statements : List (Blanks × Statement)) : List Rule :=
  statements.filterMap fun
    | (_, .fact _) => none
    | (_, .rule r) => some r

/-- What is taken from statements if the strings of their rules are unbroken: the facts, and the last
atoms of some rules. -/
def takenTexts (statements : List (Blanks × Statement)) : List Text :=
  statements.flatMap fun
    | (_, .fact a) => [a.text]
    | (_, .rule r) => r.taken

variable {statements : List (Blanks × Statement)}

theorem factsFrom_layoutText (h : ∀ r ∈ rulesOf statements, r.isUnbroken = true) :
    factsFrom true (layoutText statements ++ t) = takenTexts statements ++ factsFrom true t := by
  induction statements with
  | nil => rfl
  | cons entry statements ih =>
    obtain ⟨blanks, a | r⟩ := entry
    · rw [layoutText_fact, factsFrom_blanks blanks.all_isBlank, Bool.true_or, factsFrom_spells a.spells, ih h]
      rfl
    · have hr : r.isUnbroken = true := h r List.mem_cons_self
      have hrest := ih fun r' hr' => h r' (List.mem_cons_of_mem _ hr')
      rw [layoutText_rule, factsFrom_blanks blanks.all_isBlank, Bool.true_or, factsFrom_rule hr, hrest,
        ← List.append_assoc]
      rfl

theorem factTexts_sublist (statements : List (Blanks × Statement)) :
    (factTexts statements).Sublist (takenTexts statements) := by
  induction statements with
  | nil => exact .slnil
  | cons entry statements ih =>
    obtain ⟨blanks, a | r⟩ := entry
    · exact ih.cons_cons a.text
    · exact ih.trans (List.sublist_append_right r.taken _)

theorem length_takenTexts (statements : List (Blanks × Statement)) :
    (takenTexts statements).length =
      (factTexts statements).length + (rulesOf statements).countP Rule.endsOnNewLine := by
  induction statements with
  | nil => rfl
  | cons entry statements ih =>
    obtain ⟨blanks, a | r⟩ := entry
    · have htaken : takenTexts ((blanks, .fact a) :: statements) = a.text :: takenTexts statements :=
        rfl
      have hfacts : factTexts ((blanks, .fact a) :: statements) = a.text :: factTexts statements :=
        rfl
      have hrules : rulesOf ((blanks, .fact a) :: statements) = rulesOf statements := rfl
      rw [htaken, hfacts, hrules, List.length_cons, List.length_cons, ih]
      omega
    · have htaken : takenTexts ((blanks, .rule r) :: statements) = r.taken ++ takenTexts statements :=
        rfl
      have hfacts : factTexts ((blanks, .rule r) :: statements) = factTexts statements := rfl
      have hrules : rulesOf ((blanks, .rule r) :: statements) = r :: rulesOf statements := rfl
      rw [htaken, hfacts, hrules, List.length_append, List.countP_cons, ih, Rule.taken]
      split
      · rw [List.length_singleton]
        omega
      · rw [List.length_nil]
        omega

theorem takenTexts_eq_factTexts_iff :
    takenTexts statements = factTexts statements ↔
      ∀ r ∈ rulesOf statements, r.endsOnNewLine = false := by
  have hlength := length_takenTexts statements
  have hsublist := factTexts_sublist statements
  rw [eq_comm, ← hsublist.length_eq, hlength, Nat.left_eq_add, List.countP_eq_zero]
  simp only [Bool.not_eq_true]

namespace Program

/-- What is taken from a program: the texts between the positions of its leftmost facts. These are the
facts of the program exactly if no fact starts inside a rule, and then the texts of the facts are
taken, in order, and nothing else. If the strings of the rules have no period and no line break, all
facts are taken, and of a rule at most the last atom: if it begins a line and stands right before the
period. -/
theorem programFacts_text (p : Program) :
    (∃ spans, Leftmost p.text 0 spans ∧
      programFacts p.text = spans.map (fun x => slice p.text x.1 x.2) ∧
      (spans = factSpans 0 p.statements ↔ ∀ i j, FactAt p.text i j → ¬ InRule i 0 p.statements)) ∧
    (factSpans 0 p.statements).map (fun x => slice p.text x.1 x.2) = factTexts p.statements ∧
    ((∀ i j, FactAt p.text i j → ¬ InRule i 0 p.statements) →
      programFacts p.text = factTexts p.statements) ∧
    ((∀ r ∈ rulesOf p.statements, r.isUnbroken = true) →
      programFacts p.text = takenTexts p.statements ∧
      (factTexts p.statements).Sublist (programFacts p.text) ∧
      (programFacts p.text = factTexts p.statements ↔
        ∀ r ∈ rulesOf p.statements, r.endsOnNewLine = false)) := by
  obtain ⟨spans, hleft, hfacts⟩ := exists_leftmost p.text
  have hspans : spans = factSpans 0 p.statements ↔
      ∀ i j, FactAt p.text i j → ¬ InRule i 0 p.statements := by
    rw [← p.leftmost_factSpans_iff]
    constructor
    · rintro rfl
      exact hleft
    · exact hleft.unique
  have htexts : (factSpans 0 p.statements).map (fun x => slice p.text x.1 x.2) =
      factTexts p.statements := map_slice_factSpans [] p.trail.text
  refine ⟨⟨spans, hleft, hfacts, hspans⟩, htexts, ?_, ?_⟩
  · intro hnone
    rw [hfacts, hspans.2 hnone, htexts]
  · intro hunbroken
    have htaken : programFacts p.text = takenTexts p.statements := by
      rw [programFacts, Program.text, factsFrom_layoutText hunbroken, ← List.append_nil p.trail.text,
        factsFrom_blanks p.trail.all_isBlank, factsFrom_nil, List.append_nil]
    rw [htaken]
    exact ⟨rfl, factTexts_sublist _, takenTexts_eq_factTexts_iff⟩

/-- Two facts, one of them with a period in its string, and a rule on two lines. -/
def reachable : Program where
  statements :=
    [(⟨[], rfl⟩, .fact (.ofAtom ⟨"node".toList, [['a']], .refl true, .refl true⟩)),
      (⟨[' '], rfl⟩, .fact (.ofAtom ⟨"label".toList, ["\"v1. x\"".toList], .refl true, .refl true⟩)),
      (⟨['\n'], rfl⟩, .rule
        { head := .ofAtom ⟨"reach".toList, [['b']], .refl true, .refl true⟩
          gap := ⟨[' '], rfl⟩
          front := [⟨⟨"\n  ".toList, rfl⟩,
            .ofAtom ⟨"node".toList, [['a']], .refl true, .refl true⟩, ⟨[], rfl⟩⟩]
          last := ⟨⟨[' '], rfl⟩,
            .ofAtom ⟨"edge".toList, [['a'], ['b']], .refl true, .refl true⟩, ⟨[], rfl⟩⟩ })]
  trail := ⟨['\n'], rfl⟩

/-- Only the facts are taken. -/
theorem reachable_programFacts :
    reachable.text =
      "node(a). label(\"v1. x\").\nreach(b) :-\n  node(a), edge(a,b).\n".toList ∧
    programFacts reachable.text = ["node(a)".toList, "label(\"v1. x\")".toList] := by
  have hunbroken : ∀ r ∈ rulesOf reachable.statements, r.isUnbroken = true := by decide
  have hline : ∀ r ∈ rulesOf reachable.statements, r.endsOnNewLine = false := by decide
  have hfacts := ((programFacts_text reachable).2.2.2 hunbroken).2.2.2 hline
  exact ⟨by decide, hfacts⟩

/-- Two rules and no fact. The body of the first begins a line, and the string of the second has
periods. -/
def twoRules : Program where
  statements :=
    [(⟨[], rfl⟩, .rule
        { head := .ofAtom ⟨['a'], [], .refl true, .refl true⟩
          gap := ⟨[' '], rfl⟩
          front := []
          last := ⟨⟨"\n  ".toList, rfl⟩, .ofAtom ⟨['b'], [], .refl true, .refl true⟩, ⟨[], rfl⟩⟩ }),
      (⟨['\n'], rfl⟩, .rule
        { head := .ofAtom ⟨['c'], [], .refl true, .refl true⟩
          gap := ⟨[' '], rfl⟩
          front := []
          last := ⟨⟨[' '], rfl⟩,
            .ofAtom ⟨['p'], ["\"x. q.\"".toList], .refl true, .refl true⟩, ⟨[], rfl⟩⟩ })]
  trail := ⟨[], rfl⟩

/-- The body of the one and a part of the string of the other are taken. -/
theorem twoRules_taken :
    twoRules.text = "a :-\n  b.\nc :- p(\"x. q.\").".toList ∧
    factTexts twoRules.statements = [] ∧
    programFacts twoRules.text = [['b'], ['q']] ∧
    programFacts twoRules.text ≠ factTexts twoRules.statements := by
  refine ⟨by decide, rfl, ?_, ?_⟩
  · decide +kernel
  · decide +kernel

end Program

end FactForm
