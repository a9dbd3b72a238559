import FactForm.Proofs.Live.Status
import FactForm.Proofs.Live.Suggestion

/-!
# FactForm.Proofs.Live.TypedText

Whether candidates and suggestions keep what is typed. Facts are filtered by the typed text, but numbers
are computed from the number it denotes, so that leading zeros are lost. Nothing else is: a source
offers what begins with the typed text, unless this is a number with a zero in front.

* `Source.RewritesTyped` — a number with a zero in front is typed where numbers are offered.
* `prefix_of_mem_candidatesIn_iff` — the candidates that begin with the typed text.
* `Template.typed_of_target?` — what stands in front of a slot, with the typed text, is the input.
* `Template.suggest_keeps_typed` — when candidates keep the typed text and suggestions the input.
-/

namespace FactForm

/-- A number with a zero in front is typed where numbers are offered. -/
def Source.RewritesTyped (source : Source) (typed : Text) : Prop :=
  source = .builtin "int".toList ∧ typed.head? = some '0' ∧ typed.all Char.isDigit = true ∧
    numeral typed < numberBound

variable {facts : List Atom} {source : Source} {typed r v : Text}

/-! ## Numbers -/

theorem zero_prefix_iff (hv : isNumber v = true) : '0' :: r <+: v ↔ r = [] ∧ v = ['0'] := by
  constructor
  · rintro ⟨x, rfl⟩
    rw [List.cons_append] at hv ⊢
    rcases isNumber_cons.1 hv with ⟨_, hnil⟩ | ⟨hne, _⟩
    · rw [hnil]
      exact ⟨(List.append_eq_nil_iff.1 hnil).1, rfl⟩
    · exact absurd rfl hne
  · rintro ⟨rfl, rfl⟩
    exact List.prefix_refl ['0']

theorem prefix_of_mem_intCandidates (hzero : typed.head? ≠ some '0') (h : v ∈ intCandidates typed) :
    typed <+: v := by
  obtain ⟨hdigits, _, n, rfl, hn⟩ := mem_intCandidates_iff.1 h
  cases typed with
  | nil => exact List.nil_prefix
  | cons c r =>
    rw [List.all_cons, Bool.and_eq_true] at hdigits
    have hc : c ≠ '0' := fun hc => hzero (by rw [hc]; rfl)
    have hnumber : isNumber (c :: r) = true := isNumber_cons.2 (.inr ⟨hc, hdigits⟩)
    have hdecimal : decimal (numeral (c :: r)) = c :: r := decimal_numeral hnumber
    rcases hn with rfl | ⟨_, d, hd, rfl⟩
    · exact ⟨[], by rw [List.append_nil, hdecimal]⟩
    · have hpos : 0 < numeral (c :: r) := by
        rw [Nat.pos_iff_ne_zero]
        intro hnil
        rw [hnil] at hdecimal
        exact hc (List.cons.inj hdecimal).1.symm
      have hextended : decimal (numeral (c :: r)) ++ decimal d =
          decimal (10 * numeral (c :: r) + d) :=
        Nat.toDigits_append_toDigits (by decide) hpos hd
      rw [← hextended, hdecimal]
      exact List.prefix_append (c :: r) (decimal d)

/-- With a zero in front, something is offered that does not begin with it: the number that is typed
without its zeros, or one, if it is zero itself. -/
theorem exists_mem_intCandidates (hdigits : ('0' :: r).all Char.isDigit = true)
    (hbound : numeral ('0' :: r) < numberBound) :
    ∃ v ∈ intCandidates ('0' :: r), ¬ '0' :: r <+: v := by
  cases r with
  | nil => exact ⟨['1'], by decide, by decide⟩
  | cons d r =>
    have hmem : decimal (numeral ('0' :: d :: r)) ∈ intCandidates ('0' :: d :: r) :=
      mem_intCandidates_iff.2 ⟨hdigits, hbound, _, rfl, .inl rfl⟩
    refine ⟨_, hmem, fun hpre => ?_⟩
    cases ((zero_prefix_iff (isNumber_decimal _)).1 hpre).1

/-! ## Sources -/

/-- A candidate begins with the typed text, unless this is a number with a zero in front; then only
zero begins with zero. -/
theorem prefix_of_mem_candidatesIn_iff (h : v ∈ candidatesIn facts source typed) :
    typed <+: v ↔ (source.RewritesTyped typed → typed = ['0'] ∧ v = ['0']) := by
  cases source with
  | any => cases h
  | argument predicate index =>
    have hpre : typed <+: v := (mem_candidatesIn_argument.1 h).2
    simp [hpre, Source.RewritesTyped]
  | builtin type =>
    simp only [candidatesIn] at h
    split at h
    · rename_i htype
      subst htype
      obtain ⟨hdigits, hbound, n, rfl, _⟩ := mem_intCandidates_iff.1 h
      by_cases hzero : typed.head? = some '0'
      · obtain ⟨r, rfl⟩ := List.head?_eq_some_iff.1 hzero
        have hrewrites : (Source.builtin "int".toList).RewritesTyped ('0' :: r) :=
          ⟨rfl, rfl, hdigits, hbound⟩
        rw [zero_prefix_iff (isNumber_decimal n), List.cons.injEq, eq_self_iff_true, true_and]
        exact ⟨fun heq _ => heq, fun himp => himp hrewrites⟩
      · have hpre := prefix_of_mem_intCandidates hzero h
        simp [hpre, Source.RewritesTyped, hzero]
    · cases h

theorem forall_candidatesIn_iff :
    (∀ v ∈ candidatesIn facts source typed, typed <+: v) ↔ ¬ source.RewritesTyped typed := by
  constructor
  · rintro hall ⟨rfl, hzero, hdigits, hbound⟩
    obtain ⟨r, rfl⟩ := List.head?_eq_some_iff.1 hzero
    obtain ⟨v, hv, hpre⟩ := exists_mem_intCandidates hdigits hbound
    exact hpre (hall v hv)
  · intro hnot v hv
    exact (prefix_of_mem_candidatesIn_iff hv).2 fun h => absurd h hnot

/-! ## Suggestions -/

namespace Template

variable {t : Template} {input : Text} {target : Target}

theorem tailFits_of_status {σ : Type} [FactPool σ] {pool : σ}
    (h : t.status pool input ≠ .invalid) : (t.scan input).tailFits = true := by
  cases htail : (t.scan input).tailFits with
  | true => rfl
  | false => exact absurd (Scan.status_of_tail htail) h

/-- Either a value is typed and ends the input, or nothing is typed and the input ends in front of the
slot or in the fixed text before it. -/
theorem typed_of_target? (htail : (t.scan input).tailFits = true)
    (h : (t.scan input).target? = some target) :
    (isValue target.typed = true ∧ input = target.head ++ target.typed) ∨
      (target.typed = [] ∧ input <+: target.head) := by
  have hinput : input = (t.scan input).consumed ++ (t.scan input).tail :=
    (isExact_scan t input).input_eq
  unfold Scan.target? at h
  split at h
  · rename_i m hm
    cases h
    obtain ⟨hlast, hends⟩ := Option.filter_eq_some_iff.1 hm
    obtain ⟨n, hn⟩ := List.getElem?_of_mem (List.mem_of_getLast? hlast)
    obtain ⟨hv, hsplit, _⟩ := (isExact_scan t input).slot n m hn
    have hafter : m.after = [] := by
      rw [Bool.and_eq_true, SlotMatch.endsInput, List.isEmpty_iff] at hends
      exact hends.2
    rw [hafter, List.append_nil] at hsplit
    exact .inl ⟨hv, hsplit⟩
  · split at h
    · rename_i p rest hparts
      cases h
      have hnil : (t.scan input).tail = [] := Scan.tail_eq_nil htail (by simp [hparts])
      rw [hnil, List.append_nil] at hinput
      exact .inr ⟨hnil, [], by rw [List.append_nil]; exact hinput⟩
    · rename_i text p rest hparts
      cases h
      have hpre := Scan.tail_prefix_fixed htail hparts
      have hhead := (List.prefix_append_right_inj (t.scan input).consumed).2 hpre
      rw [← hinput] at hhead
      exact .inr ⟨rfl, hhead⟩
    · cases h

theorem eq_zero_of_rewritesTyped (htail : (t.scan input).tailFits = true)
    (h : (t.scan input).target? = some target)
    (hrewrites : target.placeholder.source.RewritesTyped target.typed) :
    target.typed = ['0'] ∧ input = target.head ++ target.typed := by
  obtain ⟨_, hzero, hdigits, _⟩ := hrewrites
  obtain ⟨r, hr⟩ := List.head?_eq_some_iff.1 hzero
  rcases typed_of_target? htail h with ⟨hv, hinput⟩ | ⟨hnil, _⟩
  · refine ⟨?_, hinput⟩
    rw [hr] at hv ⊢
    have hnumber : isNumber ('0' :: r) = true := by
      simpa [isValue, isIdentifier, isQuotedString] using hv
    rcases isNumber_cons.1 hnumber with ⟨_, rfl⟩ | ⟨hne, _⟩
    · rfl
    · exact absurd rfl hne
  · rw [hnil] at hzero
    cases hzero

theorem prefix_suggestion_iff (htail : (t.scan input).tailFits = true)
    (h : (t.scan input).target? = some target)
    (hv : v ∈ candidatesIn facts target.placeholder.source target.typed) (rest : Text) :
    input <+: target.head ++ v ++ rest ↔ target.typed <+: v := by
  rw [List.append_assoc]
  rcases typed_of_target? htail h with ⟨_, hinput⟩ | ⟨hnil, hhead⟩
  · rw [hinput, List.prefix_append_right_inj]
    constructor
    · intro hpre
      refine (prefix_of_mem_candidatesIn_iff hv).2 fun hrewrites => ?_
      have hzero := (eq_zero_of_rewritesTyped htail h hrewrites).1
      have hlen : target.typed.length ≤ v.length := by
        rw [hzero]
        refine List.length_pos_iff.2 ?_
        rintro rfl
        cases isValue_of_mem_candidatesIn hv
      have htyped : target.typed <+: v :=
        List.prefix_of_prefix_length_le hpre (List.prefix_append v rest) hlen
      exact (prefix_of_mem_candidatesIn_iff hv).1 htyped hrewrites
    · exact fun hpre => hpre.trans (List.prefix_append v rest)
  · rw [hnil]
    exact iff_of_true (hhead.trans (List.prefix_append _ _)) List.nil_prefix

variable {σ : Type} [FactPool σ]

/-- Candidates begin with the typed text, and suggestions with the input, unless a number is asked for
and what is typed is a number with a zero in front, in the input the number zero itself. -/
theorem suggest_keeps_typed (pool : σ) :
    (∀ facts source typed, (∀ v ∈ candidatesIn facts source typed, typed <+: v) ↔
      ¬ source.RewritesTyped typed) ∧
    (∀ source typed, (∀ v ∈ candidates pool source typed, typed <+: v) ↔
      ¬ source.RewritesTyped typed) ∧
    ∀ t input, (∀ item ∈ suggest t pool input, input <+: item) ↔
      ¬ (t.status pool input ≠ .invalid ∧ ∃ target, (t.scan input).target? = some target ∧
        target.placeholder.source = .builtin "int".toList ∧ target.typed = ['0']) := by
  refine ⟨fun _ _ _ => forall_candidatesIn_iff, fun _ _ => forall_candidatesIn_iff, ?_⟩
  intro t input
  constructor
  · rintro hall ⟨hs, target, htarget, hsource, htyped⟩
    have hrewrites : target.placeholder.source.RewritesTyped target.typed := by
      rw [htyped]
      exact ⟨hsource, rfl, by decide, by decide⟩
    have hkept : ∀ v ∈ candidatesIn (FactPool.facts pool).toList target.placeholder.source
        target.typed, target.typed <+: v := by
      intro v hv
      have hitem := hall _ (mem_suggest_iff.2 ⟨hs, target, htarget, v, hv, rfl⟩)
      exact (prefix_suggestion_iff (tailFits_of_status hs) htarget hv _).1 hitem
    exact forall_candidatesIn_iff.1 hkept hrewrites
  · intro hnot item hitem
    obtain ⟨hs, target, htarget, v, hv, rfl⟩ := mem_suggest_iff.1 hitem
    have htail := tailFits_of_status hs
    refine (prefix_suggestion_iff htail htarget hv _).2 (forall_candidatesIn_iff.2 ?_ v hv)
    intro hrewrites
    exact hnot ⟨hs, target, htarget, hrewrites.1, (eq_zero_of_rewritesTyped htail htarget hrewrites).1⟩

/-- `task(::n)`, which asks for a number. -/
def numbered : Template :=
  ⟨[.fixed "task(".toList, .slot ⟨['n'], ['n'], .builtin "int".toList⟩, .fixed [')']]⟩

/-- One is offered where zero is typed, and the suggestion replaces the zero. -/
theorem numbered_zero_replaced :
    "1".toList ∈ candidatesIn [] (.builtin "int".toList) "0".toList ∧
    ¬ "0".toList <+: "1".toList ∧
    "task(1)".toList ∈ numbered.suggest AtomSet.empty "task(0".toList ∧
    ¬ "task(0".toList <+: "task(1)".toList := by
  decide

end Template

end FactForm
