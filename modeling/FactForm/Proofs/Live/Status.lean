import FactForm.Live.Status

/-!
# FactForm.Proofs.Live.Status

When a scan has which status.

* `Scan.status_eq_valid_iff` — everything is read, nothing is left over, every value is valid.
* `Scan.tail_prefix_fixed`, `Scan.tail_eq_nil` — what fits behind the part that was read.
-/

namespace FactForm
namespace Scan

variable {scan : Scan} {facts : List Atom}

theorem openParts_of_isComplete (h : scan.isComplete = true) : scan.openParts = [] := by
  have hlen : scan.matched = scan.template.parts.length := by simpa [isComplete] using h
  rw [openParts, hlen]
  exact List.drop_length

theorem tail_prefix_fixed (ht : scan.tailFits = true) {text : Text} {rest : List Part}
    (h : scan.openParts = .fixed text :: rest) : scan.tail <+: text := by
  have hfits : scan.tail = [] ∨ scan.tail <+: text := by
    simpa [tailFits, nextPart?, h] using ht
  rcases hfits with hnil | hpre
  · rw [hnil]
    exact List.nil_prefix
  · exact hpre

theorem tail_eq_nil (ht : scan.tailFits = true)
    (h : ∀ text rest, scan.openParts = .fixed text :: rest → False) : scan.tail = [] := by
  simp only [tailFits, Bool.or_eq_true, List.isEmpty_iff] at ht
  rcases ht with hnil | hnext
  · exact hnil
  · split at hnext
    · rename_i text hfixed
      obtain ⟨rest, hparts⟩ := List.head?_eq_some_iff.1 hfixed
      exact (h text rest hparts).elim
    · cases hnext

theorem tail_of_isComplete (hc : scan.isComplete = true) (ht : scan.tailFits = true) :
    scan.tail = [] := by
  refine tail_eq_nil ht fun text rest h => ?_
  rw [openParts_of_isComplete hc] at h
  cases h

theorem status_eq_valid_iff :
    scan.status facts = .valid ↔
      scan.tail = [] ∧ scan.isComplete = true ∧
        ∀ m ∈ scan.constrained, m.status facts = .valid := by
  unfold status
  cases hf : scan.tailFits with
  | false =>
    simp only [Bool.not_false, if_true, reduceCtorEq, false_iff, not_and]
    intro ht
    simp [tailFits, ht] at hf
  | true =>
    cases hs : (scan.constrained.map (·.status facts)).find? (· ≠ .valid) with
    | some s =>
      have hne : s ≠ .valid := by simpa using List.find?_some hs
      have hmem := List.mem_of_find?_eq_some hs
      obtain ⟨m, hm, rfl⟩ := List.mem_map.1 hmem
      simp only [Bool.not_true, Bool.false_eq_true, if_false, hne, false_iff, not_and]
      intro _ _ hall
      exact hne (hall m hm)
    | none =>
      have hall : ∀ m ∈ scan.constrained, m.status facts = .valid := by
        simpa using hs
      cases hc : scan.isComplete with
      | false => simp
      | true => simpa [tail_of_isComplete hc hf] using hall

end Scan
end FactForm
