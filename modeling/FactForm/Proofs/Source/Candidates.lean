import FactForm.Proofs.Source.Numeral
import FactForm.Source.Candidates

/-!
# FactForm.Proofs.Source.Candidates

What a source offers, compared with what it stands for. `Source.Admits` says which values belong to
a source without reference to what is typed; the candidates for a typed text are drawn from these.

* `mem_intCandidates_iff` — the numbers that are offered.
* `admits_of_mem_candidatesIn` — every candidate belongs to its source.
* `mem_candidatesIn_self` — a value that belongs to a source is offered when it is typed.
* `exists_candidate_of_prefix` — while a value that belongs to a source is being typed, something
  that begins with the typed text is offered.
* `candidatesIn_mono`, `candidatesIn_congr` — more facts offer more, and only the facts that a source
  draws from count.
-/

namespace FactForm

/-- The value belongs to the source. -/
def Source.Admits (facts : List Atom) : Source → Text → Prop
  | .any, _ => True
  | .builtin type, v => type = ['i', 'n', 't'] ∧ isNumber v = true ∧ numeral v < numberBound
  | .argument predicate index, v =>
    ∃ a ∈ facts, a.predicate = predicate ∧ a.arguments[index]? = some v

def Source.drawsFrom (a : Atom) : Source → Bool
  | .any => false
  | .builtin _ => false
  | .argument predicate _ => a.predicate = predicate

def Source.IsInhabited (facts : List Atom) : Source → Prop
  | .any => True
  | .builtin type => type = ['i', 'n', 't']
  | .argument predicate index => ∃ a ∈ facts, a.predicate = predicate ∧ index < a.arity

instance (facts : List Atom) (source : Source) : Decidable (source.IsInhabited facts) :=
  match source with
  | .any => .isTrue trivial
  | .builtin type => inferInstanceAs (Decidable (type = _))
  | .argument _ _ => inferInstanceAs (Decidable (∃ a ∈ facts, _))

variable {facts : List Atom} {source : Source} {typed u v : Text}

theorem mem_argumentsAt {predicate : Text} {index : Nat} :
    v ∈ argumentsAt facts predicate index ↔
      ∃ a ∈ facts, a.predicate = predicate ∧ a.arguments[index]? = some v := by
  rw [argumentsAt, List.mem_filterMap]
  constructor
  · rintro ⟨a, ha, h⟩
    split at h
    · exact ⟨a, ha, ‹_›, h⟩
    · cases h
  · rintro ⟨a, ha, hp, hv⟩
    exact ⟨a, ha, by rw [if_pos hp, hv]⟩

theorem mem_candidatesIn_argument {predicate : Text} {index : Nat} :
    v ∈ candidatesIn facts (.argument predicate index) typed ↔
      v ∈ argumentsAt facts predicate index ∧ typed <+: v := by
  simp [candidatesIn, List.mem_eraseDups]

theorem mem_intCandidates_iff :
    v ∈ intCandidates typed ↔
      typed.all Char.isDigit = true ∧ numeral typed < numberBound ∧
        ∃ n, v = decimal n ∧
          (n = numeral typed ∨ n < numberBound ∧ ∃ d < 10, n = 10 * numeral typed + d) := by
  simp only [intCandidates]
  split
  · rename_i htyped
    rw [Bool.and_eq_true, decide_eq_true_eq] at htyped
    simp only [htyped, true_and, List.mem_map, List.mem_eraseDups, List.mem_cons, List.mem_filter,
      List.mem_range, decide_eq_true_eq]
    constructor
    · rintro ⟨n, rfl | ⟨⟨d, hd, rfl⟩, hlt⟩, rfl⟩
      · exact ⟨_, rfl, .inl rfl⟩
      · exact ⟨_, rfl, .inr ⟨hlt, d, hd, rfl⟩⟩
    · rintro ⟨n, rfl, rfl | ⟨hlt, d, hd, rfl⟩⟩
      · exact ⟨_, .inl rfl, rfl⟩
      · exact ⟨_, .inr ⟨⟨d, hd, rfl⟩, hlt⟩, rfl⟩
  · rename_i htyped
    rw [Bool.and_eq_true, decide_eq_true_eq] at htyped
    constructor
    · intro h
      cases h
    · rintro ⟨hdigits, hlt, _⟩
      exact absurd ⟨hdigits, hlt⟩ htyped

theorem mem_intCandidates (h : v ∈ intCandidates typed) :
    ∃ n, n < numberBound ∧ v = decimal n := by
  obtain ⟨_, hbound, n, rfl, rfl | ⟨hlt, _⟩⟩ := mem_intCandidates_iff.1 h
  · exact ⟨_, hbound, rfl⟩
  · exact ⟨n, hlt, rfl⟩

theorem mem_intCandidates_self (h : isNumber v = true) (hb : numeral v < numberBound) :
    v ∈ intCandidates v :=
  mem_intCandidates_iff.2 ⟨isNumber_all_isDigit h, hb, _, (decimal_numeral h).symm, .inl rfl⟩

theorem admits_of_mem_candidatesIn (h : v ∈ candidatesIn facts source typed) :
    source.Admits facts v := by
  cases source with
  | any => trivial
  | builtin type =>
    simp only [candidatesIn] at h
    split at h
    · obtain ⟨n, hn, rfl⟩ := mem_intCandidates h
      refine ⟨‹_›, isNumber_decimal n, ?_⟩
      rw [numeral_decimal]
      exact hn
    · cases h
  | argument predicate index => exact mem_argumentsAt.1 (mem_candidatesIn_argument.1 h).1

theorem mem_candidatesIn_self (hs : source.isAny = false) (h : source.Admits facts v) :
    v ∈ candidatesIn facts source v := by
  cases source with
  | any => cases hs
  | builtin type =>
    obtain ⟨rfl, hn, hb⟩ := h
    simpa [candidatesIn] using mem_intCandidates_self hn hb
  | argument predicate index =>
    exact mem_candidatesIn_argument.2 ⟨mem_argumentsAt.2 h, List.prefix_refl v⟩

theorem isValue_of_admits (hs : source.isAny = false) (h : source.Admits facts v) :
    isValue v = true := by
  cases source with
  | any => cases hs
  | builtin type => simp [isValue, h.2.1]
  | argument predicate index =>
    obtain ⟨a, _, _, hv⟩ := h
    exact List.all_eq_true.1 a.arguments_ok v (List.mem_of_getElem? hv)

theorem isAny_of_mem_candidatesIn (h : v ∈ candidatesIn facts source typed) :
    source.isAny = false := by
  cases source with
  | any => cases h
  | builtin type => rfl
  | argument predicate index => rfl

theorem isValue_of_mem_candidatesIn (h : v ∈ candidatesIn facts source typed) :
    isValue v = true :=
  isValue_of_admits (isAny_of_mem_candidatesIn h) (admits_of_mem_candidatesIn h)

/-- While a value of a source is being typed, something that begins with the typed text is offered:
of a number the digits that are there, of an argument the whole value. -/
theorem exists_candidate_of_prefix (hs : source.isAny = false) (h : source.Admits facts v)
    (hu : u <+: v) (hne : u ≠ []) : ∃ c ∈ candidatesIn facts source u, u <+: c := by
  cases source with
  | any => cases hs
  | builtin type =>
    obtain ⟨rfl, hn, hb⟩ := h
    have hun := isNumber_prefix hn hu hne
    obtain ⟨x, rfl⟩ := hu
    have hub := Nat.lt_of_le_of_lt (numeral_le_append u x) hb
    exact ⟨u, mem_candidatesIn_self rfl ⟨rfl, hun, hub⟩, List.prefix_refl u⟩
  | argument predicate index =>
    exact ⟨v, mem_candidatesIn_argument.2 ⟨mem_argumentsAt.2 h, hu⟩, hu⟩

theorem candidatesIn_mono {more : List Atom} (hsub : ∀ a ∈ facts, a ∈ more)
    (h : v ∈ candidatesIn facts source typed) : v ∈ candidatesIn more source typed := by
  cases source with
  | any => exact h
  | builtin type => exact h
  | argument predicate index =>
    obtain ⟨hv, hpre⟩ := mem_candidatesIn_argument.1 h
    obtain ⟨a, ha, hp, hi⟩ := mem_argumentsAt.1 hv
    exact mem_candidatesIn_argument.2 ⟨mem_argumentsAt.2 ⟨a, hsub a ha, hp, hi⟩, hpre⟩

theorem argumentsAt_filter (facts : List Atom) (predicate : Text) (index : Nat) :
    argumentsAt (facts.filter fun a => a.predicate = predicate) predicate index =
      argumentsAt facts predicate index := by
  induction facts with
  | nil => rfl
  | cons a facts ih =>
    simp only [argumentsAt] at ih ⊢
    by_cases h : a.predicate = predicate
    · simp only [List.filter_cons, h, decide_true, if_true, List.filterMap_cons, ih]
    · simp only [List.filter_cons, h, decide_false, Bool.false_eq_true, if_false,
        List.filterMap_cons, ih]

theorem candidatesIn_congr {others : List Atom}
    (h : facts.filter (source.drawsFrom ·) = others.filter (source.drawsFrom ·)) (typed : Text) :
    candidatesIn facts source typed = candidatesIn others source typed := by
  cases source with
  | any => rfl
  | builtin type => rfl
  | argument predicate index =>
    have hfilter : facts.filter (fun a => a.predicate = predicate) =
        others.filter (fun a => a.predicate = predicate) := h
    rw [candidatesIn, candidatesIn, ← argumentsAt_filter facts, hfilter, argumentsAt_filter]

theorem exists_admits (h : source.IsInhabited facts) :
    ∃ v, isValue v = true ∧ source.Admits facts v := by
  cases source with
  | any => exact ⟨['0'], rfl, trivial⟩
  | builtin type => exact ⟨['0'], rfl, h, rfl, by decide⟩
  | argument predicate index =>
    obtain ⟨a, ha, hp, hi⟩ := h
    have hv : a.arguments[index]? = some a.arguments[index] := List.getElem?_eq_getElem hi
    have hadmits : (Source.argument predicate index).Admits facts a.arguments[index] :=
      ⟨a, ha, hp, hv⟩
    exact ⟨_, isValue_of_admits rfl hadmits, hadmits⟩

end FactForm
