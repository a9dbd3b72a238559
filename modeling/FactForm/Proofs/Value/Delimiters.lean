import FactForm.Proofs.Value.Boundary

/-!
# FactForm.Proofs.Value.Delimiters

Values delimit themselves. A string ends at the first quote that no backslash escapes, so no string
is a part of a longer one; an identifier or a number is cut short only in front of a word character.

* `StringBody` — what may stand between the quotes of a string.
* `isQuotedString_iff` — a string is a body between two quotes.
* `StringBody.unique` — a text has at most one body in front of a quote.
* `StandsAt` — a token stands at a position of a text.
* `values_delimit` — what a value that goes on from another looks like, and how many strings and
  values stand at one position.
-/

namespace FactForm

/-- A text between two quotes: no quote and no backslash stands alone, and no line feed behind a
backslash. -/
inductive StringBody : Text → Prop where
  | nil : StringBody []
  | plain {c : Char} {r : Text} : c ≠ '"' → c ≠ '\\' → StringBody r → StringBody (c :: r)
  | escaped {c : Char} {r : Text} : c ≠ '\n' → StringBody r → StringBody ('\\' :: c :: r)

/-- The token begins at the position with this number of characters in front of it. -/
def StandsAt (token s : Text) (position : Nat) : Prop := token <+: s.drop position

def textBehind (token s : Text) (position : Nat) : Text := s.drop (position + token.length)

/-! ## Strings -/

theorem closesString_escaped (c : Char) (r : Text) :
    closesString ('\\' :: c :: r) = (c != '\n' && closesString r) := by
  rw [closesString]

theorem closesString_plain {c : Char} (hq : c ≠ '"') (hb : c ≠ '\\') (r : Text) :
    closesString (c :: r) = closesString r := by
  rw [closesString]
  · exact hq
  · exact fun h _ => hb h
  · exact fun _ _ h _ => hb h

theorem StringBody.closes {body : Text} (h : StringBody body) :
    closesString (body ++ ['"']) = true := by
  induction h with
  | nil => rfl
  | plain hq hb _ ih =>
    rw [List.cons_append, closesString_plain hq hb, ih]
  | escaped hc _ ih =>
    rw [List.cons_append, List.cons_append, closesString_escaped, ih]
    simp [hc]

theorem exists_body_of_closes {s : Text} (h : closesString s = true) :
    ∃ body, StringBody body ∧ s = body ++ ['"'] := by
  fun_induction closesString s with
  | case1 => cases h
  | case2 r =>
    simp at h
    exact ⟨[], .nil, by simp [h]⟩
  | case3 => cases h
  | case4 c r ih =>
    simp at h
    obtain ⟨body, hbody, hr⟩ := ih h.2
    exact ⟨'\\' :: c :: body, .escaped h.1 hbody, by simp [hr]⟩
  | case5 c r hquote hend hescape ih =>
    obtain ⟨body, hbody, hr⟩ := ih h
    have hbackslash : c ≠ '\\' := by
      intro hc
      cases r with
      | nil => exact hend hc rfl
      | cons d r => exact hescape d r hc rfl
    exact ⟨c :: body, .plain hquote hbackslash hbody, by simp [hr]⟩

theorem closesString_iff {s : Text} :
    closesString s = true ↔ ∃ body, StringBody body ∧ s = body ++ ['"'] := by
  constructor
  · exact exists_body_of_closes
  · intro h
    obtain ⟨body, hbody, rfl⟩ := h
    exact hbody.closes

theorem isQuotedString_iff {v : Text} :
    isQuotedString v = true ↔ ∃ body, StringBody body ∧ v = '"' :: (body ++ ['"']) := by
  cases v with
  | nil => simp [isQuotedString]
  | cons c r =>
    by_cases hc : c = '"'
    · simp [hc, isQuotedString, closesString_iff]
    · simp [hc, isQuotedString]

/-- A text has at most one body in front of a quote: the quote that ends one of two bodies would stand
alone in the other, or behind a backslash that escapes it in the other as well. -/
theorem StringBody.unique {b₁ b₂ r₁ r₂ : Text} (h₁ : StringBody b₁) (h₂ : StringBody b₂)
    (h : b₁ ++ '"' :: r₁ = b₂ ++ '"' :: r₂) : b₁ = b₂ := by
  induction h₁ generalizing b₂ with
  | nil =>
    cases h₂ with
    | nil => rfl
    | plain hq _ _ => simp at h; exact absurd h.1.symm hq
    | escaped _ _ => simp at h
  | plain hq hb _ ih =>
    cases h₂ with
    | nil => simp at h; exact absurd h.1 hq
    | plain _ _ hr =>
      simp only [List.cons_append, List.cons.injEq] at h
      rw [h.1, ih hr h.2]
    | escaped _ _ => simp at h; exact absurd h.1 hb
  | escaped _ _ ih =>
    cases h₂ with
    | nil => simp at h
    | plain _ hb _ => simp at h; exact absurd h.1.symm hb
    | escaped _ hr =>
      simp only [List.cons_append, List.cons.injEq, true_and] at h
      rw [h.1, ih hr h.2]

theorem isQuotedString_unique {s v w : Text} (hv : isQuotedString v = true)
    (hw : isQuotedString w = true) (hvs : v <+: s) (hws : w <+: s) : v = w := by
  obtain ⟨b₁, hb₁, rfl⟩ := isQuotedString_iff.1 hv
  obtain ⟨b₂, hb₂, rfl⟩ := isQuotedString_iff.1 hw
  obtain ⟨r₁, h₁⟩ := hvs
  obtain ⟨r₂, h₂⟩ := hws
  have hsame : b₁ ++ '"' :: r₁ = b₂ ++ '"' :: r₂ := by
    rw [← h₂] at h₁
    simpa using h₁
  rw [hb₁.unique hb₂ hsame]

/-! ## Values that go on from others -/

theorem isQuotedString_of_head {v : Text} (h : isValue v = true) (hq : v.head? = some '"') :
    isQuotedString v = true := by
  cases v with
  | nil => simp at hq
  | cons c r =>
    simp at hq
    simpa [hq, isValue, isIdentifier, isNumber] using h

theorem head_of_isQuotedString {v : Text} (h : isQuotedString v = true) : v.head? = some '"' := by
  obtain ⟨body, _, rfl⟩ := isQuotedString_iff.1 h
  rfl

theorem head?_of_isPrefix {v w : Text} (hv : isValue v = true) (hpre : v <+: w) : w.head? = v.head? := by
  obtain ⟨x, rfl⟩ := hpre
  cases v with
  | nil => simp [isValue, isIdentifier, isNumber, isQuotedString] at hv
  | cons c r => rfl

/-- A string is not the front of another value, and no other value is the front of a string. -/
theorem head?_ne_quote_of_isPrefix {v w : Text} (hv : isValue v = true) (hw : isValue w = true)
    (hpre : v <+: w) (hne : v ≠ w) : v.head? ≠ some '"' := by
  intro hq
  have hqw : w.head? = some '"' := by rw [head?_of_isPrefix hv hpre, hq]
  have hvq := isQuotedString_of_head hv hq
  have hwq := isQuotedString_of_head hw hqw
  exact hne (isQuotedString_unique hvq hwq hpre (List.prefix_refl w))

/-- A value goes on from another one by a word character, and none of the two is a string. -/
theorem isWordChar_of_isPrefix {v w : Text} (hv : isValue v = true) (hw : isValue w = true)
    (hpre : v <+: w) (hne : v ≠ w) :
    isQuotedString v = false ∧ isQuotedString w = false ∧
      ∃ c r, w = v ++ c :: r ∧ isWordChar c = true := by
  have hvq := head?_ne_quote_of_isPrefix hv hw hpre hne
  have hwq : w.head? ≠ some '"' := by rwa [head?_of_isPrefix hv hpre]
  have hword := isValue_all_isWordChar hw hwq
  refine ⟨?_, ?_, ?_⟩
  · exact Bool.eq_false_iff.2 fun h => hvq (head_of_isQuotedString h)
  · exact Bool.eq_false_iff.2 fun h => hwq (head_of_isQuotedString h)
  · obtain ⟨x, rfl⟩ := hpre
    cases x with
    | nil => simp at hne
    | cons c r =>
      simp at hword
      exact ⟨c, r, rfl, hword.2.1⟩

/-- A value in front of a boundary is the only one at its position that is. -/
theorem eq_of_isPrefix_of_boundary {s v w : Text} (hv : isValue v = true) (hw : isValue w = true)
    (hpre : v <+: w) (hws : w <+: s) (hb : isBoundary (s.drop v.length) = true) : v = w := by
  by_cases hne : v = w
  · exact hne
  · obtain ⟨_, _, c, r, rfl, hc⟩ := isWordChar_of_isPrefix hv hw hpre hne
    obtain ⟨y, rfl⟩ := hws
    simp [isBoundary, hc] at hb

theorem StandsAt.unique {s v w : Text} {i : Nat} (hv : isValue v = true) (hw : isValue w = true)
    (hvs : StandsAt v s i) (hws : StandsAt w s i) (hvb : isBoundary (textBehind v s i) = true)
    (hwb : isBoundary (textBehind w s i) = true) : v = w := by
  rw [textBehind, ← List.drop_drop] at hvb hwb
  rcases List.prefix_or_prefix_of_prefix hvs hws with hpre | hpre
  · exact eq_of_isPrefix_of_boundary hv hw hpre hws hvb
  · exact (eq_of_isPrefix_of_boundary hw hv hpre hvs hwb).symm

/-! ## Delimiters -/

/-- A value that goes on from another one does so by a word character, and none of the two is a string.
Hence at most one string stands at a position, and at most one value that ends there in front of a
boundary. What is typed of an identifier is an identifier, and what is typed of a number is a
number. -/
theorem values_delimit :
    (∀ v w, isValue v = true → isValue w = true → v <+: w → v ≠ w →
      isQuotedString v = false ∧ isQuotedString w = false ∧
        ∃ c r, w = v ++ c :: r ∧ isWordChar c = true) ∧
    (∀ s i v w, isQuotedString v = true → isQuotedString w = true →
      StandsAt v s i → StandsAt w s i → v = w) ∧
    (∀ s i v w, isValue v = true → isValue w = true → StandsAt v s i → StandsAt w s i →
      isBoundary (textBehind v s i) = true → isBoundary (textBehind w s i) = true → v = w) ∧
    (∀ u v, isIdentifier v = true → u <+: v → u ≠ [] → isIdentifier u = true) ∧
    ∀ u v, isNumber v = true → u <+: v → u ≠ [] → isNumber u = true := by
  refine ⟨?_, ?_, ?_, ?_, ?_⟩
  · intro v w hv hw hpre hne
    exact isWordChar_of_isPrefix hv hw hpre hne
  · intro s i v w hv hw hvs hws
    exact isQuotedString_unique hv hw hvs hws
  · intro s i v w hv hw hvs hws hvb hwb
    exact StandsAt.unique hv hw hvs hws hvb hwb
  · intro u v hv hpre hne
    exact isIdentifier_prefix hv hpre hne
  · intro u v hv hpre hne
    exact isNumber_prefix hv hpre hne

/-- A fact with a quote in a string and a value behind it. -/
def delimitedText : Text := "p(\"\\\"\",n12)".toList

/-- The value `n1` goes on to `n12` by a digit. At the places of the two arguments no other string and no
other value stands. -/
theorem delimitedText_values :
    (isQuotedString "n1".toList = false ∧ isQuotedString "n12".toList = false ∧
      ∃ c r, "n12".toList = "n1".toList ++ c :: r ∧ isWordChar c = true) ∧
    StandsAt "\"\\\"\"".toList delimitedText 2 ∧
    (∀ w, isQuotedString w = true → StandsAt w delimitedText 2 → "\"\\\"\"".toList = w) ∧
    StandsAt "n12".toList delimitedText 7 ∧
    (∀ w, isValue w = true → StandsAt w delimitedText 7 →
      isBoundary (textBehind w delimitedText 7) = true → "n12".toList = w) ∧
    isIdentifier "n1".toList = true ∧ isNumber "12".toList = true := by
  obtain ⟨hgoesOn, hstring, hvalue, hidentifier, hnumber⟩ := values_delimit
  have hquoted : StandsAt "\"\\\"\"".toList delimitedText 2 := ⟨",n12)".toList, rfl⟩
  have hword : StandsAt "n12".toList delimitedText 7 := ⟨")".toList, rfl⟩
  refine ⟨?_, hquoted, ?_, hword, ?_, ?_, ?_⟩
  · exact hgoesOn _ _ rfl rfl ⟨['2'], rfl⟩ (by simp)
  · intro w hw hws
    exact hstring _ _ _ _ rfl hw hquoted hws
  · intro w hw hws hwb
    exact hvalue _ _ _ _ rfl hw hword hws rfl hwb
  · exact hidentifier _ "n12".toList rfl ⟨['2'], rfl⟩ (by simp)
  · exact hnumber _ "120".toList rfl ⟨['0'], rfl⟩ (by simp)

end FactForm
