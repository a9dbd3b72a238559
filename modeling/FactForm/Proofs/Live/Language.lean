import FactForm.Proofs.Live.Walk

/-!
# FactForm.Proofs.Live.Language

The texts that are valid over a separated template. They are described without any reading order: the
whole text is spelled by the parts, and the value of each slot belongs to the source of the slot.

* `InLanguage` — a text is spelled by parts with values that their sources admit.
* `walkStatus_eq_valid_iff` — the pass over separated parts accepts these texts and no others.
* `Template.status_valid_iff_inLanguage` — so does the status of a text.
-/

namespace FactForm

/-- The whole text is spelled by the parts, each slot with a value that belongs to its source. -/
def InLanguage (facts : List Atom) (parts : List Part) (s : Text) : Prop :=
  ∃ values, Spells parts values s ∧
    ∀ e ∈ (parts.filterMap Part.placeholder?).zip values, e.1.source.Admits facts e.2

variable {facts : List Atom} {p : Placeholder} {parts : List Part} {s text : Text}

/-! ## The language, part by part -/

theorem inLanguage_nil : InLanguage facts [] s ↔ s = [] := by
  constructor
  · rintro ⟨values, hs, _⟩
    cases hs
    rfl
  · rintro rfl
    exact ⟨[], .nil, by simp⟩

theorem inLanguage_fixed :
    InLanguage facts (.fixed text :: parts) s ↔ ∃ r, s = text ++ r ∧ InLanguage facts parts r := by
  constructor
  · rintro ⟨values, hs, hadmits⟩
    obtain ⟨r, rfl, hr⟩ := hs.fixed_inv
    rw [filterMap_fixed] at hadmits
    exact ⟨r, rfl, values, hr, hadmits⟩
  · rintro ⟨r, rfl, values, hr, hadmits⟩
    exact ⟨values, .fixed hr, by rwa [filterMap_fixed]⟩

theorem inLanguage_slot :
    InLanguage facts (.slot p :: parts) s ↔
      ∃ v r, s = v ++ r ∧ isValue v = true ∧ p.source.Admits facts v ∧
        InLanguage facts parts r := by
  constructor
  · rintro ⟨values, hs, hadmits⟩
    obtain ⟨v, vs, r, rfl, rfl, hv, hr⟩ := hs.slot_inv
    rw [filterMap_slot, List.zip_cons_cons, List.forall_mem_cons] at hadmits
    exact ⟨v, r, rfl, hv, hadmits.1, vs, hr, hadmits.2⟩
  · rintro ⟨v, r, rfl, hv, ha, vs, hr, hadmits⟩
    refine ⟨v :: vs, .slot hv hr, ?_⟩
    rw [filterMap_slot, List.zip_cons_cons, List.forall_mem_cons]
    exact ⟨ha, hadmits⟩

theorem isBoundary_of_inLanguage (h : InLanguage facts parts s) (hc : closesSlot parts = true) :
    isBoundary s = true := by
  obtain ⟨_, hs, _⟩ := h
  exact isBoundary_of_spells hs hc

/-! ## Acceptance -/

/-- The pass over separated parts accepts the texts of their language. The induction is on the
parts; the value that the pass takes is the only one behind which the next part can stand. -/
theorem walkStatus_eq_valid_iff (hsep : separated parts = true) :
    walkStatus facts parts s = .valid ↔ InLanguage facts parts s := by
  induction parts generalizing s with
  | nil =>
    rw [inLanguage_nil]
    cases s <;> simp [walkStatus]
  | cons part parts ih =>
    cases part with
    | fixed text =>
      rw [inLanguage_fixed]
      constructor
      · intro h
        obtain ⟨r, rfl, _, hr⟩ := walkStatus_fixed_eq_valid h
        exact ⟨r, rfl, (ih hsep).1 hr⟩
      · rintro ⟨r, rfl, hr⟩
        rw [walkStatus_fixed_append]
        exact (ih hsep).2 hr
    | slot p =>
      obtain ⟨hclose, hsep'⟩ := separated_slot.1 hsep
      rw [inLanguage_slot]
      constructor
      · intro h
        obtain ⟨v, r, rfl, hread, ha, hr⟩ := walkStatus_slot_eq_valid h
        exact ⟨v, r, rfl, readValue_isValue hread, ha, (ih hsep').1 hr⟩
      · rintro ⟨v, r, rfl, hv, ha, hr⟩
        rw [walkStatus_slot_append hv ha (isBoundary_of_inLanguage hr hclose)]
        exact (ih hsep').2 hr

/-- A text is valid over a separated template exactly if its parts spell the whole of it with values
that belong to the sources of the slots. -/
theorem Template.status_valid_iff_inLanguage {σ : Type} [FactPool σ] {t : Template}
    (ht : t.isSeparated = true) (pool : σ) (input : Text) :
    t.status pool input = .valid ↔
      InLanguage (FactPool.facts pool).toList t.parts input := by
  rw [Template.status_eq_walkStatus ht]
  exact walkStatus_eq_valid_iff ht

/-- `limit(::what,::n)`, with a known thing and a number. -/
def Template.limit : Template :=
  ⟨[.fixed "limit(".toList, .slot ⟨"what".toList, "what".toList, .argument "thing".toList 1⟩,
    .fixed [','], .slot ⟨['n'], ['n'], .builtin "int".toList⟩, .fixed [')']]⟩

/-- One thing, whose text looks like the rest of a limit. -/
def things : AtomSet :=
  .ofList [⟨"thing".toList, [['a'], "\"x\\\",7)\"".toList], rfl, rfl⟩]

/-- The largest number is in the language of `limit`, its successor is not. -/
theorem Template.limit_status_valid :
    limit.isSeparated = true ∧
    InLanguage things.toList limit.parts
      "limit(\"x\\\",7)\",18446744073709551615)".toList ∧
    ¬ InLanguage things.toList limit.parts
      "limit(\"x\\\",7)\",18446744073709551616)".toList := by
  have hsep : limit.isSeparated = true := by decide
  refine ⟨hsep, ?_, ?_⟩
  · exact (status_valid_iff_inLanguage hsep things _).1 (by decide +kernel)
  · intro h
    have hvalid := (status_valid_iff_inLanguage hsep things _).2 h
    exact absurd hvalid (by decide +kernel)

end FactForm
