import FactForm.Text

/-!
# FactForm.Dictionary

Finite maps from names to values, kept as a list in ascending order of the names.

* `get?`, `set`, `keys` — the operations.

The main statements are `get?_set`, what is found after a value is set, and `Dictionary.ext`:
a dictionary is fixed by what it finds.
-/

namespace FactForm

/-- Entries whose names ascend. -/
abbrev Ascending {β : Type} (entries : List (Text × β)) : Prop :=
  entries.Pairwise fun e f => Text.before e.1 f.1 = true

structure Dictionary (β : Type) where
  entries : List (Text × β)
  ascending : Ascending entries
  deriving DecidableEq

namespace Dictionary

variable {β : Type}

/-- Puts a value under its name, in place of the one that is there. -/
def setIn (k : Text) (v : β) : List (Text × β) → List (Text × β)
  | [] => [(k, v)]
  | e :: es =>
    if Text.before k e.1 then (k, v) :: e :: es
    else if Text.before e.1 k then e :: setIn k v es
    else (k, v) :: es

theorem mem_setIn {k : Text} {v : β} {e : Text × β} {es : List (Text × β)}
    (h : e ∈ setIn k v es) : e = (k, v) ∨ e ∈ es := by
  induction es with
  | nil => simpa [setIn] using h
  | cons f fs ih =>
    simp only [setIn] at h
    split at h
    · simpa using h
    · split at h
      · rcases List.mem_cons.1 h with rfl | h
        · exact .inr List.mem_cons_self
        · exact (ih h).imp id (List.mem_cons_of_mem f)
      · rcases List.mem_cons.1 h with rfl | h
        · exact .inl rfl
        · exact .inr (List.mem_cons_of_mem f h)

theorem setIn_ascending {k : Text} {v : β} {es : List (Text × β)} (h : Ascending es) :
    Ascending (setIn k v es) := by
  induction es with
  | nil => simp [setIn]
  | cons f fs ih =>
    obtain ⟨hf, hfs⟩ := List.pairwise_cons.1 h
    simp only [setIn]
    split
    · rename_i hk
      refine List.pairwise_cons.2 ⟨fun e he => ?_, h⟩
      rcases List.mem_cons.1 he with rfl | he
      · exact hk
      · exact Text.strictOrder.trans hk (hf e he)
    · split
      · rename_i hk
        refine List.pairwise_cons.2 ⟨fun e he => ?_, ih hfs⟩
        rcases mem_setIn he with rfl | he
        · exact hk
        · exact hf e he
      · rename_i h₁ h₂
        have hk : k = f.1 := Text.strictOrder.eq_of_neither h₁ h₂
        refine List.pairwise_cons.2 ⟨fun e he => ?_, hfs⟩
        rw [hk]
        exact hf e he

def empty : Dictionary β := ⟨[], List.Pairwise.nil⟩

instance : Inhabited (Dictionary β) := ⟨empty⟩

def get? (d : Dictionary β) (k : Text) : Option β := d.entries.lookup k

def set (d : Dictionary β) (k : Text) (v : β) : Dictionary β :=
  ⟨setIn k v d.entries, setIn_ascending d.ascending⟩

def keys (d : Dictionary β) : List Text := d.entries.map (·.1)

/-- The dictionary of a list of pairs, of which the last one counts for each name. -/
def ofList (pairs : List (Text × β)) : Dictionary β :=
  pairs.foldl (fun d e => d.set e.1 e.2) empty

/-! ## Laws -/

theorem get?_empty (k : Text) : (empty : Dictionary β).get? k = none := rfl

theorem lookup_eq_none {k : Text} {es : List (Text × β)} (h : ∀ e ∈ es, Text.before k e.1 = true) :
    es.lookup k = none := by
  rw [List.lookup_eq_none_iff]
  intro e he
  have := h e he
  simp only [bne_iff_ne, ne_eq]
  rintro rfl
  exact Text.strictOrder.not_self this

theorem get?_set {d : Dictionary β} {j k : Text} {v : β} :
    (d.set k v).get? j = if j = k then some v else d.get? j := by
  simp only [get?, set]
  induction d.entries with
  | nil => simp [setIn, List.lookup_cons]; split <;> simp_all
  | cons e es ih =>
    obtain ⟨i, w⟩ := e
    simp only [setIn]
    split
    · simp only [List.lookup_cons]; split <;> simp_all
    · split
      · rename_i h
        simp only [List.lookup_cons, ih]
        split
        · rename_i hj
          have hj : j = i := by simpa using hj
          have : i ≠ k := by rintro rfl; exact Text.strictOrder.not_self h
          simp [hj, this]
        · rfl
      · rename_i h₁ h₂
        have hk : k = i := Text.strictOrder.eq_of_neither h₁ h₂
        subst hk
        simp only [List.lookup_cons]
        split <;> simp_all

theorem lookup_isSome_of_mem {e : Text × β} {es : List (Text × β)} (h : e ∈ es) :
    (es.lookup e.1).isSome = true := by
  rw [Option.isSome_iff_ne_none, ne_eq, List.lookup_eq_none_iff]
  intro hn
  simpa using hn e h

theorem eq_of_ascending {es fs : List (Text × β)} (he : Ascending es) (hf : Ascending fs)
    (h : ∀ k, es.lookup k = fs.lookup k) : es = fs := by
  induction es generalizing fs with
  | nil =>
    cases fs with
    | nil => rfl
    | cons f fs =>
      have := lookup_isSome_of_mem (List.mem_cons_self : f ∈ f :: fs)
      rw [← h] at this
      cases this
  | cons e es ih =>
    cases fs with
    | nil =>
      have := lookup_isSome_of_mem (List.mem_cons_self : e ∈ e :: es)
      rw [h] at this
      cases this
    | cons f fs =>
      obtain ⟨hes, he'⟩ := List.pairwise_cons.1 he
      obtain ⟨hfs, hf'⟩ := List.pairwise_cons.1 hf
      obtain ⟨j, v⟩ := e
      obtain ⟨k, w⟩ := f
      have hjk : j = k := by
        refine Text.strictOrder.eq_of_neither (fun hlt => ?_) (fun hlt => ?_)
        · have hn : ((k, w) :: fs).lookup j = none := lookup_eq_none fun x hx => by
            rcases List.mem_cons.1 hx with rfl | hx
            · exact hlt
            · exact Text.strictOrder.trans hlt (hfs x hx)
          rw [← h] at hn
          simp at hn
        · have hn : ((j, v) :: es).lookup k = none := lookup_eq_none fun x hx => by
            rcases List.mem_cons.1 hx with rfl | hx
            · exact hlt
            · exact Text.strictOrder.trans hlt (hes x hx)
          rw [h] at hn
          simp at hn
      subst hjk
      have hv : v = w := by simpa [List.lookup_cons] using h j
      have : es = fs := ih he' hf' fun i => by
        by_cases hi : i = j
        · subst hi
          rw [lookup_eq_none hes, lookup_eq_none hfs]
        · have hi' : (i == j) = false := by simpa using hi
          simpa [List.lookup_cons, hi'] using h i
      rw [hv, this]

theorem ext {d e : Dictionary β} (h : ∀ k, d.get? k = e.get? k) : d = e := by
  cases d
  cases e
  rw [mk.injEq]
  exact eq_of_ascending ‹_› ‹_› h

end Dictionary
end FactForm
