import FactForm.Proofs.Atom.TextOrder
import FactForm.Proofs.Program.RoundTrip

/-!
# FactForm.Proofs.Program.Grouping

The order in which facts are written. It is the order of atoms, since texts of atoms compare as the
atoms do: a pool is written as it is listed, and since predicates decide first, the groups of a list of
facts by predicate follow one another as they do in the whole.

* `eq_sortByText` — there is one order in which facts can be written.
* `isGrouped_addToGroup`, `flatten_values_addToGroup` — what one more atom does to the groups.
* `isGrouped_groupByPredicate`, `flatten_values_groupByPredicate` — the groups of a list.
* `flatMap_sortByText_values` — the groups, each written in order, are the whole written in order.
* `written_in_order` — texts in the order of atoms, pools and groups.
-/

namespace FactForm

/-! ## One order -/

def statementsText (atoms : List Atom) : Text := atoms.flatMap fun a => a.text ++ ['.', ' ']

/-- No atom comes before one in front of it. -/
abbrev InOrder (atoms : List Atom) : Prop := atoms.Pairwise fun a b => b.before a = false

theorem programText_eq (atoms : List Atom) : programText atoms = statementsText (sortByText atoms) := by
  rw [programText, sortTexts_map_text, List.flatMap_map, statementsText]

theorem sortByText_inOrder (atoms : List Atom) : InOrder (sortByText atoms) := by
  have hsorted := sortTexts_ascending (atoms.map Atom.text)
  rw [sortTexts_map_text, List.pairwise_map] at hsorted
  exact hsorted.imp fun h => by rwa [Atom.before_text] at h

theorem eq_sortByText {l atoms : List Atom} (hperm : l.Perm atoms) (h : InOrder l) :
    l = sortByText atoms := by
  refine List.Perm.eq_of_pairwise ?_ h (sortByText_inOrder atoms)
    (hperm.trans (sortByText_perm atoms).symm)
  intro a b _ _ hab hba
  exact Atom.strictOrder.eq_of_not hba hab

theorem AtomSet.toList_inOrder (pool : AtomSet) : InOrder pool.toList :=
  pool.ascending.imp fun hab => Atom.strictOrder.asymm hab

/-! ## Groups -/

namespace Dictionary

def values {β : Type} (d : Dictionary β) : List β := d.entries.map (·.2)

theorem mem_of_lookup {β : Type} {k : Text} {v : β} {es : List (Text × β)}
    (h : es.lookup k = some v) : (k, v) ∈ es := by
  induction es with
  | nil => cases h
  | cons e es ih =>
    rw [List.lookup_cons] at h
    split at h
    · rename_i hk
      cases h
      rw [beq_iff_eq.1 hk]
      exact List.mem_cons_self
    · exact List.mem_cons_of_mem e (ih h)

end Dictionary

/-- Puts an atom at the end of the group of its predicate. -/
def addToGroup (d : Dictionary (List Atom)) (a : Atom) : Dictionary (List Atom) :=
  d.set a.predicate ((d.get? a.predicate).getD [] ++ [a])

/-- Every atom stands in the group of its predicate. -/
def IsGrouped (d : Dictionary (List Atom)) : Prop :=
  ∀ e ∈ d.entries, ∀ a ∈ e.2, a.predicate = e.1

theorem isGrouped_addToGroup {d : Dictionary (List Atom)} (h : IsGrouped d) (a : Atom) :
    IsGrouped (addToGroup d a) := by
  intro e he b hb
  rcases Dictionary.mem_setIn he with rfl | he
  · rcases List.mem_append.1 hb with hb | hb
    · cases hget : d.get? a.predicate with
      | none => simp [hget] at hb
      | some group =>
        rw [hget, Option.getD_some] at hb
        exact h _ (Dictionary.mem_of_lookup hget) b hb
    · rw [List.mem_singleton.1 hb]
  · exact h e he b hb

theorem flatten_setIn {k : Text} (a : Atom) {es : List (Text × List Atom)} (h : Ascending es) :
    ((Dictionary.setIn k ((es.lookup k).getD [] ++ [a]) es).map (·.2)).flatten.Perm
      ((es.map (·.2)).flatten ++ [a]) := by
  induction es with
  | nil => simp [Dictionary.setIn]
  | cons e es ih =>
    obtain ⟨i, group⟩ := e
    obtain ⟨hes, hrest⟩ := List.pairwise_cons.1 h
    rw [Dictionary.setIn]
    split
    · rename_i hk
      have hnone : ((i, group) :: es).lookup k = none := Dictionary.lookup_eq_none fun f hf => by
        rcases List.mem_cons.1 hf with rfl | hf
        · exact hk
        · exact Text.strictOrder.trans hk (hes f hf)
      rw [hnone, Option.getD_none, List.nil_append, List.map_cons, List.flatten_cons]
      exact List.perm_append_comm
    · split
      · rename_i hk
        have hne : (k == i) = false := by
          rw [beq_eq_false_iff_ne]
          rintro rfl
          exact Text.strictOrder.not_self hk
        rw [List.lookup_cons, hne, List.map_cons, List.map_cons, List.flatten_cons,
          List.flatten_cons, List.append_assoc]
        exact (ih hrest).append_left group
      · rename_i h₁ h₂
        obtain rfl : k = i := Text.strictOrder.eq_of_neither h₁ h₂
        rw [List.lookup_cons_self, Option.getD_some, List.map_cons, List.map_cons,
          List.flatten_cons, List.flatten_cons, List.append_assoc, List.append_assoc]
        exact List.perm_append_comm.append_left group

theorem flatten_values_addToGroup (d : Dictionary (List Atom)) (a : Atom) :
    (addToGroup d a).values.flatten.Perm (d.values.flatten ++ [a]) :=
  flatten_setIn a d.ascending

theorem isGrouped_groupByPredicate (atoms : List Atom) : IsGrouped (groupByPredicate atoms) := by
  have hrun : ∀ d, IsGrouped d → IsGrouped (atoms.foldl addToGroup d) := by
    induction atoms with
    | nil => exact fun _ h => h
    | cons a atoms ih => exact fun d h => ih _ (isGrouped_addToGroup h a)
  exact hrun .empty fun e he => absurd he List.not_mem_nil

theorem flatten_values_groupByPredicate (atoms : List Atom) :
    (groupByPredicate atoms).values.flatten.Perm atoms := by
  have hrun : ∀ d : Dictionary (List Atom),
      (atoms.foldl addToGroup d).values.flatten.Perm (d.values.flatten ++ atoms) := by
    induction atoms with
    | nil => intro d; rw [List.append_nil]; exact List.Perm.refl _
    | cons a atoms ih =>
      intro d
      have hstep := (flatten_values_addToGroup d a).append_right atoms
      rw [List.append_assoc, List.singleton_append] at hstep
      exact (ih _).trans hstep
  exact hrun .empty

/-! ## Writing -/

theorem flatMap_sortByText_inOrder {entries : List (Text × List Atom)} (h : Ascending entries)
    (hgrouped : ∀ e ∈ entries, ∀ a ∈ e.2, a.predicate = e.1) :
    InOrder (entries.flatMap fun e => sortByText e.2) := by
  refine List.pairwise_flatMap.2 ⟨fun e _ => sortByText_inOrder e.2, ?_⟩
  refine h.imp_of_mem fun {e f} he hf hef a ha b hb => ?_
  have hpred : Text.before a.predicate b.predicate = true := by
    rw [hgrouped e he a ((sortByText_perm e.2).mem_iff.1 ha),
      hgrouped f hf b ((sortByText_perm f.2).mem_iff.1 hb)]
    exact hef
  have hab : a.before b = true := by
    refine listBefore_cons_iff.2 (.inr ⟨?_, hpred⟩)
    intro heq
    rw [heq] at hpred
    exact Text.strictOrder.not_self hpred
  exact Atom.strictOrder.asymm hab

theorem flatMap_sortByText_values (atoms : List Atom) :
    (groupByPredicate atoms).values.flatMap sortByText = sortByText atoms := by
  refine eq_sortByText ?_ ?_
  · exact (flatMap_sortByText_perm _).trans (flatten_values_groupByPredicate atoms)
  · rw [Dictionary.values, List.flatMap_map]
    exact flatMap_sortByText_inOrder (groupByPredicate atoms).ascending
      (isGrouped_groupByPredicate atoms)

theorem flatten_programLines (groups : List (List Atom)) :
    (programLines groups).flatten = statementsText (groups.flatMap sortByText) := by
  induction groups with
  | nil => rfl
  | cons group groups ih =>
    have hlines : programLines (group :: groups) = programText group :: programLines groups := rfl
    rw [hlines, List.flatten_cons, ih, programText_eq, List.flatMap_cons, statementsText,
      statementsText, statementsText, List.flatMap_append]

/-- Texts of atoms compare byte by byte as the atoms do, by predicate and then by arguments. So a pool
is written as it is listed, and the lines of the groups by predicate make up the program of the whole
list, in which the atoms stand in order, each as often as in the list. -/
theorem written_in_order :
    (∀ a b : Atom,
      bytesBefore (Text.bytes a.text) (Text.bytes b.text) = a.before b ∧
      a.before b = listBefore (fun v w => bytesBefore (Text.bytes v) (Text.bytes w))
        (a.predicate :: a.arguments) (b.predicate :: b.arguments) ∧
      (Text.bytes a.text = Text.bytes b.text ↔ a = b)) ∧
    (∀ pool : AtomSet, programText pool.toList = statementsText pool.toList) ∧
    (∀ atoms : List Atom,
      (programLines (groupByPredicate atoms).values).flatten = programText atoms ∧
      programText atoms = statementsText (sortByText atoms) ∧
      InOrder (sortByText atoms) ∧
      ∀ a, (sortByText atoms).count a = atoms.count a) := by
  refine ⟨?_, ?_, ?_⟩
  · intro a b
    refine ⟨by rw [Text.bytesBefore_bytes, Atom.before_text], ?_, ?_⟩
    · simp only [Text.bytesBefore_bytes]
      rfl
    · rw [Text.bytes_inj, Atom.text_inj]
  · intro pool
    rw [programText_eq, ← eq_sortByText (List.Perm.refl _) pool.toList_inOrder]
  · intro atoms
    refine ⟨?_, programText_eq atoms, sortByText_inOrder atoms, (sortByText_perm atoms).count_eq⟩
    rw [flatten_programLines, flatMap_sortByText_values, programText_eq]

end FactForm
