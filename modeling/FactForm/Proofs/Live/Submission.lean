import FactForm.Kind
import FactForm.Proofs.Entity.Decoding
import FactForm.Proofs.Live.Status
import FactForm.Proofs.Template.Scan

/-!
# FactForm.Proofs.Live.Submission

Whether valid input can be submitted. The status of a text looks at each slot by itself, the entity
of a text needs one value for each id, so the two agree except where an id is repeated with
different values.

* `Scan.Agrees` — slots with the same id hold the same value.
* `Kind.entity_cases` — what submitting a text gives that is read to its end.
* `Kind.entity_of_valid_iff` — valid input gives the entity of the scanned values exactly if they
  agree.
-/

namespace FactForm

/-- Slots with the same id hold the same value. -/
def Scan.Agrees (scan : Scan) : Prop :=
  ∀ m ∈ scan.slots, ∀ n ∈ scan.slots, m.placeholder.id = n.placeholder.id → m.value = n.value

instance (scan : Scan) : Decidable scan.Agrees :=
  inferInstanceAs (Decidable (∀ m ∈ scan.slots, ∀ n ∈ scan.slots, _))

namespace Kind

theorem entity_cases (k : Kind) {input : Text}
    (hc : (k.codec.display.scan input).isComplete = true)
    (ht : (k.codec.display.scan input).tail = []) :
    (∃ e, k.entity input = .ok e ∧
      ∀ m ∈ (k.codec.display.scan input).slots, e.value? m.placeholder.id = some m.value) ∨
    (∃ m ∈ (k.codec.display.scan input).slots, ∃ n ∈ (k.codec.display.scan input).slots,
      m.placeholder.id = n.placeholder.id ∧ m.value ≠ n.value ∧
      k.entity input =
        .error (.conflictingValues m.placeholder.id input k.codec.display.shape)) := by
  obtain ⟨r, hr, hslots⟩ := Template.readWhole_of_isComplete hc ht
  have hmem : ∀ e, e ∈ k.codec.display.ids.zip r.values ↔
      ∃ m ∈ (k.codec.display.scan input).slots, (m.placeholder.id, m.value) = e := by
    intro e
    rw [← hslots, List.mem_map]
  cases hcollect : collectValues .empty (k.codec.display.ids.zip r.values) with
  | ok values =>
    have hvalues : k.codec.display.valuesOf input = .ok values := by
      simp [Template.valuesOf, hr, hcollect]
    obtain ⟨e, he, hev⟩ := Codec.exists_fromDisplayText hvalues
    refine .inl ⟨e, he, ?_⟩
    intro m hm
    rw [Entity.value?, hev]
    exact (collectValues_ok hcollect).2.1 _ ((hmem _).2 ⟨m, hm, rfl⟩)
  | error id =>
    obtain ⟨v, w, hne, hv, hw⟩ := collectValues_error hcollect
    have hv : (id, v) ∈ k.codec.display.ids.zip r.values := by
      rcases hv with hv | hv
      · cases hv
      · exact hv
    obtain ⟨m, hm, hmv⟩ := (hmem _).1 hv
    obtain ⟨n, hn, hnw⟩ := (hmem _).1 hw
    simp only [Prod.mk.injEq] at hmv hnw
    refine .inr ⟨m, hm, n, hn, hmv.1.trans hnw.1.symm, ?_, ?_⟩
    · rw [hmv.2, hnw.2]
      exact hne
    · simp [entity, Codec.fromDisplayText, Entity.ofDisplayText, Template.valuesOf, hr, hcollect,
        hmv.1]

/-- Valid input gives the entity of the scanned values exactly if slots with the same id hold the
same value, and else the error that names the id. -/
theorem entity_of_valid_iff {σ : Type} [FactPool σ] (k : Kind) (pool : σ) (input : Text)
    (h : k.status pool input = .valid) :
    ((∃ e, k.entity input = .ok e ∧
        ∀ m ∈ (k.codec.display.scan input).slots, e.value? m.placeholder.id = some m.value) ↔
      (k.codec.display.scan input).Agrees) ∧
    (¬ (k.codec.display.scan input).Agrees →
      ∃ m ∈ (k.codec.display.scan input).slots, ∃ n ∈ (k.codec.display.scan input).slots,
        m.placeholder.id = n.placeholder.id ∧ m.value ≠ n.value ∧
        k.entity input =
          .error (.conflictingValues m.placeholder.id input k.codec.display.shape)) := by
  obtain ⟨ht, hc, _⟩ := Scan.status_eq_valid_iff.1 h
  rcases entity_cases k hc ht with ⟨e, he, hval⟩ | ⟨m, hm, n, hn, hid, hne, he⟩
  · have hagree : (k.codec.display.scan input).Agrees := by
      intro m hm n hn hid
      have hmn := (hval m hm).symm.trans (hid ▸ hval n hn)
      exact Option.some.inj hmn
    exact ⟨⟨fun _ => hagree, fun _ => ⟨e, he, hval⟩⟩, fun hnot => absurd hagree hnot⟩
  · have hnot : ¬ (k.codec.display.scan input).Agrees := fun ha => hne (ha m hm n hn hid)
    refine ⟨⟨?_, fun ha => absurd ha hnot⟩, fun _ => ⟨m, hm, n, hn, hid, hne, he⟩⟩
    rintro ⟨e, hok, _⟩
    rw [he] at hok
    cases hok

/-- `::a and ::a` for display, `p(::a)` for atoms. -/
def repeated : Kind where
  codec :=
    { display := ⟨[.slot ⟨['a'], ['a'], .any⟩, .fixed " and ".toList, .slot ⟨['a'], ['a'], .any⟩]⟩
      atom := ⟨[.fixed "p(".toList, .slot ⟨['a'], ['a'], .any⟩, .fixed [')']]⟩
      same_ids := by decide }

theorem repeated_entity_of_valid :
    repeated.status AtomSet.empty "x and x".toList = .valid ∧
    ∃ e, repeated.entity "x and x".toList = .ok e ∧
      ∀ m ∈ (repeated.codec.display.scan "x and x".toList).slots,
        e.value? m.placeholder.id = some m.value := by
  have h : repeated.status AtomSet.empty "x and x".toList = .valid := by decide
  exact ⟨h, (repeated.entity_of_valid_iff AtomSet.empty _ h).1.2 (by decide)⟩

theorem compile_repeated :
    compile .unlimited ⟨"::a and ::a".toList, "p(::a)".toList, [⟨['a'], ['a'], []⟩]⟩ = .ok repeated := by
  have hd : segments "::a and ::a".toList =
      [.marker ['a'], .literal " and ".toList, .marker ['a']] := by decide +kernel
  have ha : segments "p(::a)".toList = [.literal "p(".toList, .marker ['a'], .literal [')']] := by
    decide +kernel
  simp only [compile, Template.compile, hd, ha]
  rfl

/-- Valid input that cannot be submitted. -/
theorem repeated_valid_not_entity :
    compile .unlimited ⟨"::a and ::a".toList, "p(::a)".toList, [⟨['a'], ['a'], []⟩]⟩ = .ok repeated ∧
    repeated.status AtomSet.empty "x and y".toList = .valid ∧
    repeated.entity "x and y".toList =
      .error (.conflictingValues ['a'] "x and y".toList "a and a".toList) := by
  have h : repeated.status AtomSet.empty "x and y".toList = .valid := by decide
  exact ⟨compile_repeated, h, rfl⟩

end Kind
end FactForm
