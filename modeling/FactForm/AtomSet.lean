import FactForm.Atom

/-!
# FactForm.AtomSet

Finite sets of atoms, kept as the ascending list of their members. A set is the pool of known
facts that input is checked against.

* `AtomSet.insert`, `erase`, `insertAll`, `ofList` — the operations.
* `FactPool` — a collection of atoms that can be seen as a set at the moment it is asked.

The main statements are `mem_insert`, `mem_erase` and `mem_ofList`, which say what an operation
does to membership, and `AtomSet.ext`: a set is fixed by its members.
-/

namespace FactForm

structure AtomSet where
  toList : List Atom
  ascending : toList.Pairwise (Atom.before · ·)
  deriving DecidableEq

namespace AtomSet

/-- Puts an atom into its place in an ascending list, unless it is there already. -/
def insertInto (a : Atom) : List Atom → List Atom
  | [] => [a]
  | b :: bs => 
    if a.before b then a :: b :: bs
    else if b.before a then b :: insertInto a bs
    else b :: bs

theorem mem_insertInto {a x : Atom} {l : List Atom} :
    x ∈ insertInto a l ↔ x = a ∨ x ∈ l := by
  induction l with
  | nil => simp [insertInto]
  | cons b bs ih =>
    simp only [insertInto]
    split
    · simp
    · split
      · simp only [List.mem_cons, ih]
        exact or_left_comm
      · rename_i h₁ h₂
        have := Atom.strictOrder.eq_of_neither h₁ h₂
        subst this
        simp

theorem insertInto_ascending {a : Atom} {l : List Atom} (h : l.Pairwise (Atom.before · ·)) :
    (insertInto a l).Pairwise (Atom.before · ·) := by
  induction l with
  | nil => simp [insertInto]
  | cons b bs ih =>
    obtain ⟨hb, hbs⟩ := List.pairwise_cons.1 h
    simp only [insertInto]
    split
    · rename_i hab
      refine List.pairwise_cons.2 ⟨fun x hx => ?_, h⟩
      rcases List.mem_cons.1 hx with rfl | hx
      · exact hab
      · exact Atom.strictOrder.trans hab (hb x hx)
    · split
      · rename_i hba
        refine List.pairwise_cons.2 ⟨fun x hx => ?_, ih hbs⟩
        rcases mem_insertInto.1 hx with rfl | hx
        · exact hba
        · exact hb x hx
      · exact h

def empty : AtomSet := ⟨[], List.Pairwise.nil⟩

instance : Inhabited AtomSet := ⟨empty⟩

instance : Membership Atom AtomSet := ⟨fun s a => a ∈ s.toList⟩

def contains (s : AtomSet) (a : Atom) : Bool := s.toList.contains a

def insert (s : AtomSet) (a : Atom) : AtomSet :=
  ⟨insertInto a s.toList, insertInto_ascending s.ascending⟩

def erase (s : AtomSet) (a : Atom) : AtomSet :=
  ⟨s.toList.filter (· ≠ a), s.ascending.filter _⟩

def insertAll (s : AtomSet) (atoms : List Atom) : AtomSet := atoms.foldl insert s

def ofList (atoms : List Atom) : AtomSet := empty.insertAll atoms

def size (s : AtomSet) : Nat := s.toList.length

def isEmpty (s : AtomSet) : Bool := s.toList.isEmpty

/-! ## Laws -/

theorem mem_def {a : Atom} {s : AtomSet} : a ∈ s ↔ a ∈ s.toList := Iff.rfl

theorem contains_iff {a : Atom} {s : AtomSet} : s.contains a = true ↔ a ∈ s := by
  simp [contains, mem_def]

theorem not_mem_empty (a : Atom) : ¬ a ∈ empty := by simp [mem_def, empty]

theorem mem_insert {a x : Atom} {s : AtomSet} : x ∈ s.insert a ↔ x = a ∨ x ∈ s :=
  mem_insertInto

theorem mem_erase {a x : Atom} {s : AtomSet} : x ∈ s.erase a ↔ x ≠ a ∧ x ∈ s := by
  simp [mem_def, erase, and_comm]

theorem mem_insertAll {x : Atom} {s : AtomSet} {atoms : List Atom} :
    x ∈ s.insertAll atoms ↔ x ∈ atoms ∨ x ∈ s := by
  unfold insertAll
  induction atoms generalizing s with
  | nil => simp
  | cons a atoms ih =>
    rw [List.foldl_cons, ih, mem_insert, List.mem_cons]
    exact ⟨by rintro (h | h | h) <;> simp [h], by rintro ((h | h) | h) <;> simp [h]⟩

theorem mem_ofList {x : Atom} {atoms : List Atom} : x ∈ ofList atoms ↔ x ∈ atoms := by
  simp [ofList, mem_insertAll, not_mem_empty]

theorem eq_of_ascending {l m : List Atom} (hl : l.Pairwise (Atom.before · ·))
    (hm : m.Pairwise (Atom.before · ·)) (h : ∀ x, x ∈ l ↔ x ∈ m) : l = m := by
  induction l generalizing m with
  | nil =>
    cases m with
    | nil => rfl
    | cons b m => exact absurd ((h b).2 List.mem_cons_self) List.not_mem_nil
  | cons a l ih =>
    cases m with
    | nil => exact absurd ((h a).1 List.mem_cons_self) List.not_mem_nil
    | cons b m =>
      obtain ⟨ha, hl'⟩ := List.pairwise_cons.1 hl
      obtain ⟨hb, hm'⟩ := List.pairwise_cons.1 hm
      have hab : a = b := by
        rcases List.mem_cons.1 ((h a).1 List.mem_cons_self) with e | ham
        · exact e
        rcases List.mem_cons.1 ((h b).2 List.mem_cons_self) with e | hbl
        · exact e.symm
        exact absurd (Atom.strictOrder.trans (ha b hbl) (hb a ham)) Atom.strictOrder.not_self
      subst hab
      have : l = m := ih hl' hm' fun x => by
        constructor
        · intro hx
          rcases List.mem_cons.1 ((h x).1 (List.mem_cons_of_mem a hx)) with rfl | hx'
          · exact absurd (ha x hx) Atom.strictOrder.not_self
          · exact hx'
        · intro hx
          rcases List.mem_cons.1 ((h x).2 (List.mem_cons_of_mem a hx)) with rfl | hx'
          · exact absurd (hb x hx) Atom.strictOrder.not_self
          · exact hx'
      rw [this]

theorem ext {s t : AtomSet} (h : ∀ x, x ∈ s ↔ x ∈ t) : s = t := by
  cases s
  cases t
  rw [mk.injEq]
  exact eq_of_ascending ‹_› ‹_› h

theorem ofList_perm {l m : List Atom} (h : l.Perm m) : ofList l = ofList m :=
  ext fun x => by rw [mem_ofList, mem_ofList, h.mem_iff]

theorem filter_toList_congr {s t : AtomSet} {p : Atom → Bool}
    (h : ∀ a, p a = true → (a ∈ s ↔ a ∈ t)) : s.toList.filter p = t.toList.filter p := by
  refine eq_of_ascending (s.ascending.filter p) (t.ascending.filter p) fun a => ?_
  rw [List.mem_filter, List.mem_filter, and_congr_left_iff]
  exact h a

theorem ofList_toList (s : AtomSet) : ofList s.toList = s :=
  ext fun x => by rw [mem_ofList, mem_def]

end AtomSet

/-- A collection that shows the facts it knows as one set. -/
class FactPool (σ : Type) where
  facts : σ → AtomSet

instance : FactPool AtomSet := ⟨id⟩

instance : FactPool (List Atom) := ⟨AtomSet.ofList⟩

end FactForm
