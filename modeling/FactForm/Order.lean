/-!
# FactForm.Order

Strict orders, given as tests, and the order of lists that an order of their elements induces.

* `StrictOrder` — what makes a test a strict total order.
* `listBefore`  — the lexicographic order of lists.

Main statements: `StrictOrder.list`, lists over a strict order are strictly ordered, and
`eq_or_of_find?`, in an ordered list the first element that is found comes before all others.
-/

namespace FactForm

/-- The test `before` orders its type strictly and totally. -/
structure StrictOrder {α : Type} (before : α → α → Bool) : Prop where
  irrefl : ∀ a, before a a = false
  trans : ∀ {a b c}, before a b = true → before b c = true → before a c = true
  eq_of_not : ∀ {a b}, before a b = false → before b a = false → a = b

theorem StrictOrder.not_self {α : Type} {before : α → α → Bool} (o : StrictOrder before) {a : α} :
    ¬ before a a = true := by
  rw [o.irrefl]
  exact Bool.false_ne_true

theorem StrictOrder.eq_of_neither {α : Type} {before : α → α → Bool} (o : StrictOrder before)
    {a b : α} (h₁ : ¬ before a b = true) (h₂ : ¬ before b a = true) : a = b :=
  o.eq_of_not (Bool.eq_false_iff.2 h₁) (Bool.eq_false_iff.2 h₂)

theorem StrictOrder.asymm {α : Type} {before : α → α → Bool} (o : StrictOrder before) {a b : α}
    (h : before a b = true) : before b a = false := by
  rw [Bool.eq_false_iff]
  exact fun h' => o.not_self (o.trans h h')

theorem StrictOrder.eq_of_mono {α β : Type} {before : α → α → Bool} {after : β → β → Bool}
    (o : StrictOrder before) (o' : StrictOrder after) {f : α → β}
    (h : ∀ {a b}, before a b = true → after (f a) (f b) = true) (a b : α) :
    after (f a) (f b) = before a b := by
  cases hab : before a b with
  | true => exact h hab
  | false =>
    cases hba : before b a with
    | true => exact o'.asymm (h hba)
    | false =>
      rw [o.eq_of_not hab hba]
      exact o'.irrefl _

theorem StrictOrder.total {α : Type} {before : α → α → Bool} (o : StrictOrder before) (a b : α) :
    before a b = false ∨ before b a = false := by
  cases h : before a b with
  | false => exact .inl rfl
  | true => exact .inr (o.asymm h)

theorem StrictOrder.trans_false {α : Type} {before : α → α → Bool} (o : StrictOrder before)
    {a b c : α} (h₁ : before b a = false) (h₂ : before c b = false) : before c a = false := by
  rw [Bool.eq_false_iff]
  intro hca
  cases hab : before a b with
  | true =>
    rw [o.trans hca hab] at h₂
    cases h₂
  | false =>
    rw [o.eq_of_not hab h₁] at hca
    rw [hca] at h₂
    cases h₂

theorem eq_or_of_find? {α : Type} {r : α → α → Prop} {p : α → Bool} {l : List α} {a b : α}
    (hl : l.Pairwise r) (h : l.find? p = some a) (hb : b ∈ l) (hp : p b = true) :
    b = a ∨ r a b := by
  obtain ⟨_, passed, later, rfl, hpassed⟩ := List.find?_eq_some_iff_append.1 h
  rcases List.mem_append.1 hb with hbefore | hb
  · exact absurd hp (by simpa using hpassed b hbefore)
  · rcases List.mem_cons.1 hb with heq | hlater
    · exact .inl heq
    · exact .inr ((List.pairwise_cons.1 (List.pairwise_append.1 hl).2.1).1 b hlater)

/-- Whether a list comes before another: the first difference decides, and a list comes before
its extensions. -/
def listBefore {α : Type} [DecidableEq α] (before : α → α → Bool) : List α → List α → Bool
  | _, [] => false
  | [], _ :: _ => true
  | a :: l, b :: m => if a = b then listBefore before l m else before a b

variable {α : Type} [DecidableEq α] {before : α → α → Bool}

theorem listBefore_cons_iff {a b : α} {l m : List α} :
    listBefore before (a :: l) (b :: m) = true ↔
      a = b ∧ listBefore before l m = true ∨ a ≠ b ∧ before a b = true := by
  by_cases h : a = b <;> simp [listBefore, h]

theorem listBefore_irrefl (l : List α) : listBefore before l l = false := by
  induction l with
  | nil => rfl
  | cons a l ih => simpa [listBefore] using ih

theorem listBefore_append_left (l x y : List α) :
    listBefore before (l ++ x) (l ++ y) = listBefore before x y := by
  induction l with
  | nil => rfl
  | cons a l ih => simpa [listBefore] using ih

theorem StrictOrder.listBefore_trans (o : StrictOrder before) {l m n : List α}
    (h₁ : listBefore before l m = true) (h₂ : listBefore before m n = true) :
    listBefore before l n = true := by
  induction l generalizing m n with
  | nil =>
    cases n with
    | nil => cases m <;> simp [listBefore] at h₂
    | cons c n => rfl
  | cons a l ih =>
    cases m with
    | nil => simp [listBefore] at h₁
    | cons b m =>
      cases n with
      | nil => simp [listBefore] at h₂
      | cons c n =>
        rw [listBefore_cons_iff] at h₁ h₂ ⊢
        rcases h₁ with ⟨rfl, h₁⟩ | ⟨hab, h₁⟩
        · exact h₂.imp (And.imp_right (ih h₁)) id
        · rcases h₂ with ⟨rfl, _⟩ | ⟨_, h₂⟩
          · exact .inr ⟨hab, h₁⟩
          · refine .inr ⟨?_, o.trans h₁ h₂⟩
            rintro rfl
            exact o.not_self (o.trans h₁ h₂)

theorem StrictOrder.eq_of_not_listBefore (o : StrictOrder before) {l m : List α}
    (h₁ : listBefore before l m = false) (h₂ : listBefore before m l = false) : l = m := by
  induction l generalizing m with
  | nil =>
    cases m with
    | nil => rfl
    | cons b m => simp [listBefore] at h₁
  | cons a l ih =>
    cases m with
    | nil => simp [listBefore] at h₂
    | cons b m =>
      by_cases h : a = b
      · subst h
        simp only [listBefore, if_true] at h₁ h₂
        rw [ih h₁ h₂]
      · simp only [listBefore, h, Ne.symm h, if_false] at h₁ h₂
        exact absurd (o.eq_of_not h₁ h₂) h

theorem StrictOrder.list (o : StrictOrder before) : StrictOrder (listBefore before) where
  irrefl := listBefore_irrefl
  trans := o.listBefore_trans
  eq_of_not := o.eq_of_not_listBefore

end FactForm
