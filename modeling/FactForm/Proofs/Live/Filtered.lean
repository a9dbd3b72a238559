import FactForm.Proofs.Live.TypedText
import FactForm.Proofs.Source.Limits

/-!
# FactForm.Proofs.Live.Filtered

What is left of the suggestions, and when the input is one of them. No suggestion is made twice. Over a
separated template the input itself is suggested exactly if it is valid and ends in the value of a slot
with a source: then the value is offered for itself, and in no other way can the input be put together
from a candidate, the text in front of it and the parts behind it.

* `nodup_candidatesIn`, `Template.nodup_suggest` — nothing is offered or suggested twice.
* `walkTarget_of_valid` — the value that ends a valid text is the one to be completed.
* `Template.candidate_eq_typed` — a suggestion that is the input has what is typed as its candidate.
* `Template.self_mem_suggest_iff` — when the input is suggested.
* `Template.suggestFor_exact` — what is left of the suggestions, and when the input matches.
-/

namespace FactForm

variable {facts : List Atom} {index i : Nat} {before s v : Text} {p : Placeholder}
  {front : List Part} {target : Target}

/-! ## No suggestion twice -/

theorem nodup_candidatesIn (facts : List Atom) (source : Source) (typed : Text) :
    (candidatesIn facts source typed).Nodup := by
  cases source with
  | any => exact List.nodup_nil
  | builtin type =>
    rw [candidatesIn]
    split
    · rw [intCandidates]
      split
      · exact (nodup_eraseDups _).map decimal_injective
      · exact List.nodup_nil
    · exact List.nodup_nil
  | argument predicate index => exact nodup_eraseDups _

theorem Template.nodup_suggest {σ : Type} [FactPool σ] (t : Template) (pool : σ) (input : Text) :
    (t.suggest pool input).Nodup := by
  rw [suggest, Scan.suggestions]
  split
  · exact List.nodup_nil
  · split
    · exact List.nodup_nil
    · refine (nodup_candidatesIn _ _ _).map ?_
      intro v w hvw
      exact List.append_cancel_left (List.append_cancel_right hvw)

/-! ## The value that ends a valid text -/

theorem walkStatus_nil_ne_valid : walkStatus facts (front ++ [.slot p]) [] ≠ .valid := by
  induction front with
  | nil =>
    rw [List.nil_append, walkStatus_slot_none rfl]
    decide
  | cons part front ih =>
    cases part with
    | fixed text =>
      intro h
      obtain ⟨r, hnil, _, hr⟩ := walkStatus_fixed_eq_valid h
      rw [(List.append_eq_nil_iff.1 hnil.symm).2] at hr
      exact ih hr
    | slot q =>
      rw [List.cons_append, walkStatus_slot_none rfl]
      decide

theorem walkTarget_of_valid (h : walkStatus facts (front ++ [.slot p]) s = .valid) (index : Nat)
    (before : Text) :
    ∃ i head v, walkTarget index before (front ++ [.slot p]) s = some (i, ⟨head, p, v, []⟩) ∧
      before ++ s = head ++ v ∧ p.source.Admits facts v := by
  induction front generalizing index before s with
  | nil =>
    obtain ⟨v, r, rfl, hread, hadmits, hr⟩ := walkStatus_slot_eq_valid h
    cases r with
    | nil => exact ⟨index, before, v, walkTarget_slot_end hread, by rw [List.append_nil], hadmits⟩
    | cons c r => cases hr
  | cons part front ih =>
    cases part with
    | fixed text =>
      obtain ⟨r, rfl, hafter, hr⟩ := walkStatus_fixed_eq_valid h
      rw [List.cons_append, walkTarget_fixed_some hafter, ← List.append_assoc]
      exact ih hr (index + 1) (before ++ text)
    | slot q =>
      obtain ⟨v, r, rfl, hread, _, hr⟩ := walkStatus_slot_eq_valid h
      cases r with
      | nil => exact absurd hr walkStatus_nil_ne_valid
      | cons c r =>
        rw [List.cons_append, walkTarget_slot_cons hread, ← List.append_assoc]
        exact ih hr (index + 1) (before ++ v)

/-! ## The input as a suggestion -/

namespace Template

variable {t : Template} {input rest : Text}

theorem candidate_eq_typed (htail : (t.scan input).tailFits = true)
    (h : (t.scan input).target? = some target)
    (hv : v ∈ candidatesIn facts target.placeholder.source target.typed)
    (heq : target.head ++ v ++ rest = input) : v = target.typed ∧ rest = [] := by
  have hself : input <+: target.head ++ v ++ rest := ⟨[], by rw [List.append_nil, heq]⟩
  have hlong := (prefix_suggestion_iff htail h hv rest).1 hself
  have hlen := congrArg List.length heq
  rw [List.length_append, List.length_append] at hlen
  rcases typed_of_target? htail h with ⟨_, hinput⟩ | ⟨_, hhead⟩
  · have htyped := congrArg List.length hinput
    rw [List.length_append] at htyped
    have hle := hlong.length_le
    exact ⟨(hlong.eq_of_length (by omega)).symm, List.length_eq_zero_iff.1 (by omega)⟩
  · -- The input ends in front of the slot, so there is no room for the candidate.
    have hle := hhead.length_le
    have hnil : v = [] := List.length_eq_zero_iff.1 (by omega)
    have hvalue := isValue_of_mem_candidatesIn hv
    rw [hnil] at hvalue
    cases hvalue

theorem eq_nil_of_shownText {parts : List Part} (hclose : closesSlot parts = true)
    (h : shownText parts = []) : parts = [] := by
  unfold closesSlot at hclose
  split at hclose
  · rfl
  · cases h
  · cases hclose

theorem getLast?_of_walkTarget (ht : t.isSeparated = true)
    (hs : walkStatus facts t.parts input ≠ .invalid)
    (h : walkTarget index before t.parts input = some (i, target))
    (hshown : shownText target.following = []) :
    target.following = [] ∧ t.parts.getLast? = some (.slot target.placeholder) := by
  obtain ⟨front, _, _, hparts, _, _⟩ := standsIn_of_walkTarget hs h
  have hsep : separated t.parts = true := ht
  rw [hparts] at hsep
  have hclose := (separated_slot.1 (separated_of_append hsep)).1
  have hfollowing := eq_nil_of_shownText hclose hshown
  exact ⟨hfollowing, by rw [hparts, hfollowing, List.getLast?_concat]⟩

variable {σ : Type} [FactPool σ] {pool : σ}

theorem self_mem_suggest_iff (ht : t.isSeparated = true) :
    input ∈ t.suggest pool input ↔
      t.status pool input = .valid ∧
        ∃ p, t.parts.getLast? = some (.slot p) ∧ p.source.isAny = false := by
  rw [mem_suggest_iff]
  constructor
  · rintro ⟨hs, target, htarget, v, hv, heq⟩
    obtain ⟨_, hshown⟩ := candidate_eq_typed (tailFits_of_status hs) htarget hv heq
    rw [status_eq_walkStatus ht] at hs ⊢
    rw [target?_scan ht, Option.map_eq_some_iff] at htarget
    obtain ⟨⟨i, target⟩, hwalk, rfl⟩ := htarget
    obtain ⟨hfollowing, hlast⟩ := getLast?_of_walkTarget ht hs hwalk hshown
    have hstatus := walkStatus_candidate ht hs hwalk hv (walkStatus_nil_ne_invalid _)
    rw [hshown] at heq
    refine ⟨?_, target.placeholder, hlast, isAny_of_mem_candidatesIn hv⟩
    rw [← heq, hstatus, hfollowing]
    rfl
  · rintro ⟨hs, p, hlast, hany⟩
    obtain ⟨front, hparts⟩ := List.getLast?_eq_some_iff.1 hlast
    have hwalk := hs
    rw [status_eq_walkStatus ht, hparts] at hwalk
    obtain ⟨i, head, v, htarget, hinput, hadmits⟩ := walkTarget_of_valid hwalk 0 []
    refine ⟨by rw [hs]; decide, ⟨head, p, v, []⟩, ?_, v, mem_candidatesIn_self hany hadmits, ?_⟩
    · rw [target?_scan ht, hparts, htarget]
      rfl
    · rw [List.nil_append] at hinput
      rw [hinput]
      exact List.append_nil _

/-- No suggestion is made twice. What is left of them is in their order, and it is all of them but the
input and the excluded ones. The input matches exactly if it is valid and the last part is a slot with a
source. -/
theorem suggestFor_exact (ht : t.isSeparated = true) (pool : σ) (excluded : List Text)
    (input : Text) :
    (t.suggest pool input).Nodup ∧
    (t.suggestFor pool excluded input).items.Sublist (t.suggest pool input) ∧
    (∀ item, item ∈ (t.suggestFor pool excluded input).items ↔
      item ∈ t.suggest pool input ∧ item ≠ input ∧ item ∉ excluded) ∧
    ((t.suggestFor pool excluded input).matchesInput = true ↔
      t.status pool input = .valid ∧
        ∃ p, t.parts.getLast? = some (.slot p) ∧ p.source.isAny = false) := by
  refine ⟨nodup_suggest t pool input, List.filter_sublist, fun item => ?_, ?_⟩
  · simp [suggestFor, List.mem_filter]
  · rw [← self_mem_suggest_iff ht, suggestFor, List.contains_iff_mem]

/-- While the second node of an edge is typed, the nodes that it begins are left, but for an excluded one.
When it is a node itself, the input matches. -/
theorem nodeEdge_suggestFor :
    nodeEdge.isSeparated = true ∧
    "alpha -> alps".toList ∈
      (nodeEdge.suggestFor nodes ["alpha -> alpha".toList] "alpha -> al".toList).items ∧
    "alpha -> alpha".toList ∉
      (nodeEdge.suggestFor nodes ["alpha -> alpha".toList] "alpha -> al".toList).items ∧
    (nodeEdge.suggestFor nodes [] "alpha -> beta".toList).matchesInput = true := by
  have hsep : nodeEdge.isSeparated = true := by decide
  obtain ⟨_, _, hleft, _⟩ :=
    suggestFor_exact hsep nodes ["alpha -> alpha".toList] "alpha -> al".toList
  obtain ⟨_, _, _, hmatches⟩ := suggestFor_exact hsep nodes [] "alpha -> beta".toList
  refine ⟨hsep, (hleft _).2 (by decide), fun h => ?_, hmatches.2 ⟨by decide, _, rfl, rfl⟩⟩
  exact ((hleft _).1 h).2.2 List.mem_cons_self

end Template
end FactForm
