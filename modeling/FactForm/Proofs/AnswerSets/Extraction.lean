import FactForm.Proofs.AnswerSets.RoundTrip
import FactForm.Proofs.Program.Statements

/-!
# FactForm.Proofs.AnswerSets.Extraction

What is extracted from a text, be it a program or a listing. Both searches take what the reader of
atoms reads at a place, so that every text they take is an atom by itself, and each goes on behind what
it took. In a listing of atoms nothing between the atoms begins an atom, and no atom can be continued
by what stands behind it.

* `IsExtract` — atoms that stand in a text one behind the other.
* `isExtract_programFacts`, `isExtract_listedAtoms` — so do the facts of a program and the atoms of a
  listing.
* `listedAtoms_spacedListing` — the atoms of a listing with any blanks behind its commas.
* `extraction_parses` — both together, and what a batch makes of them.
-/

namespace FactForm

/-- Texts that stand in `s` one behind the other, each of them an atom; as a batch they are parsed
without a loss. -/
structure IsExtract (texts : List Text) (s : Text) : Prop where
  parses : ∀ t ∈ texts, ∃ a, Atom.parse t = .ok a
  kept : ∃ atoms, texts.map Atom.parse = atoms.map .ok ∧ parseAll texts = ⟨atoms, []⟩
  places : ∃ spans : List (Nat × Nat), texts = spans.map (fun x => slice s x.1 x.2) ∧
    (∀ x ∈ spans, x.1 < x.2 ∧ x.2 ≤ s.length) ∧ spans.Pairwise fun x y => x.2 ≤ y.1

theorem parseAll_of_parses {texts : List Text} (h : ∀ t ∈ texts, ∃ a, Atom.parse t = .ok a) :
    ∃ atoms, texts.map Atom.parse = atoms.map .ok ∧ parseAll texts = ⟨atoms, []⟩ := by
  induction texts with
  | nil => exact ⟨[], rfl, rfl⟩
  | cons t texts ih =>
    obtain ⟨a, ha⟩ := h t List.mem_cons_self
    obtain ⟨atoms, hmap, hall⟩ := ih fun u hu => h u (List.mem_cons_of_mem t hu)
    exact ⟨a :: atoms, by rw [List.map_cons, ha, hmap, List.map_cons], by rw [parseAll_cons ha, hall]⟩

/-! ## Programs -/

theorem parses_of_factAt {s : Text} {i j : Nat} (h : FactAt s i j) :
    ∃ a, Atom.parse (slice s i j) = .ok a := by
  obtain ⟨p, vs, hspells⟩ := h.spells
  obtain ⟨a, rfl, rfl⟩ := Atom.exists_of_spells hspells
  exact ⟨a, Atom.parse_eq_ok_iff_spells.2 hspells⟩

theorem isExtract_programFacts (s : Text) : IsExtract (programFacts s) s := by
  obtain ⟨spans, hleft, hfacts⟩ := exists_leftmost s
  have hparses : ∀ t ∈ programFacts s, ∃ a, Atom.parse t = .ok a := by
    intro t ht
    rw [hfacts] at ht
    obtain ⟨x, hx, rfl⟩ := List.mem_map.1 ht
    exact parses_of_factAt (hleft.factAt_of_mem hx)
  refine ⟨hparses, parseAll_of_parses hparses, spans, hfacts, ?_, hleft.ordered.2⟩
  intro x hx
  have hfact := hleft.factAt_of_mem hx
  exact ⟨hfact.lt, Nat.le_of_lt hfact.lt_length⟩

/-! ## Listings -/

theorem parses_listedAtoms (s : Text) : ∀ t ∈ listedAtoms s, ∃ a, Atom.parse t = .ok a := by
  fun_induction listedAtoms s with
  | case1 => simp
  | case2 c r a rest hread ih =>
    intro t ht
    rcases List.mem_cons.1 ht with rfl | ht
    · exact ⟨a, Atom.parse_consumed hread⟩
    · exact ih t ht
  | case3 c r _ ih => exact ih

/-- The atoms of what is left of a text stand behind its front. The induction is on what is left. -/
theorem exists_spans_listedAtoms (front t : Text) :
    ∃ spans : List (Nat × Nat), listedAtoms t = spans.map (fun x => slice (front ++ t) x.1 x.2) ∧
      (∀ x ∈ spans, front.length ≤ x.1 ∧ x.1 < x.2 ∧ x.2 ≤ (front ++ t).length) ∧
      spans.Pairwise fun x y => x.2 ≤ y.1 := by
  fun_induction listedAtoms t generalizing front with
  | case1 => exact ⟨[], rfl, by simp, List.Pairwise.nil⟩
  | case2 c r a rest hread ih =>
    obtain ⟨text, hspells, hsplit⟩ := readAtomParts_spells (readAtom_eq_some_iff.1 hread)
    have hpos : 0 < text.length := List.length_pos_iff.2 hspells.ne_nil
    obtain ⟨spans, htexts, hwithin, hordered⟩ := ih (front ++ text)
    rw [hsplit, Text.consumed_append]
    rw [List.append_assoc, List.length_append] at hwithin
    rw [List.append_assoc] at htexts
    refine ⟨(front.length, front.length + text.length) :: spans, ?_, ?_, ?_⟩
    · rw [htexts, List.map_cons, slice_append]
    · intro x hx
      rcases List.mem_cons.1 hx with rfl | hx
      · simp only [List.length_append]
        omega
      · obtain ⟨hlow, hlt, hhigh⟩ := hwithin x hx
        exact ⟨by omega, hlt, hhigh⟩
    · exact List.pairwise_cons.2 ⟨fun x hx => (hwithin x hx).1, hordered⟩
  | case3 c r _ ih =>
    obtain ⟨spans, htexts, hwithin, hordered⟩ := ih (front ++ [c])
    rw [List.append_assoc, List.singleton_append] at htexts hwithin
    refine ⟨spans, htexts, fun x hx => ?_, hordered⟩
    obtain ⟨hlow, hlt, hhigh⟩ := hwithin x hx
    rw [List.length_append] at hlow
    exact ⟨by omega, hlt, hhigh⟩

theorem isExtract_listedAtoms (s : Text) : IsExtract (listedAtoms s) s := by
  obtain ⟨spans, htexts, hwithin, hordered⟩ := exists_spans_listedAtoms [] s
  refine ⟨parses_listedAtoms s, parseAll_of_parses (parses_listedAtoms s), spans, htexts, ?_, hordered⟩
  intro x hx
  exact (hwithin x hx).2

/-! ## Listings of atoms -/

/-- The part of a listing behind its first atom: each atom with the comma and the blanks in front. -/
def furtherAtoms (items : List (Blanks × Atom)) : Text :=
  items.flatMap fun (blanks, a) => ',' :: (blanks.text ++ a.text)

/-- Atoms between commas, with any blanks behind each comma; the blanks of the first item are not
written. -/
def spacedListing : List (Blanks × Atom) → Text
  | [] => []
  | (_, a) :: items => a.text ++ furtherAtoms items

theorem furtherAtoms_cons (blanks : Blanks) (a : Atom) (items : List (Blanks × Atom)) (t : Text) :
    furtherAtoms ((blanks, a) :: items) ++ t =
      ',' :: (blanks.text ++ (a.text ++ (furtherAtoms items ++ t))) := by
  simp [furtherAtoms]

theorem listedAtoms_text (a : Atom) {rest : Text} (h : endsAtom rest = true) :
    listedAtoms (a.text ++ rest) = a.text :: listedAtoms rest := by
  rw [listedAtoms_of_readAtom (a.readAtom_text_append h), Text.consumed_append]

theorem listedAtoms_blanks (blanks : Blanks) (s : Text) :
    listedAtoms (blanks.text ++ s) = listedAtoms s := by
  obtain ⟨blanks, hblanks⟩ := blanks
  induction blanks with
  | nil => rfl
  | cons c r ih =>
    rw [List.all_cons, Bool.and_eq_true] at hblanks
    rw [List.cons_append,
      listedAtoms_skip (isLower_of_isBlank hblanks.1) (ne_of_isBlank hblanks.1 rfl)]
    exact ih hblanks.2

theorem endsAtom_furtherAtoms {items : List (Blanks × Atom)} {t : Text} (ht : endsAtom t = true) :
    endsAtom (furtherAtoms items ++ t) = true := by
  cases items with
  | nil => exact ht
  | cons item items =>
    rw [furtherAtoms_cons]
    rfl

theorem listedAtoms_furtherAtoms {t : Text} (hend : endsAtom t = true) (ht : listedAtoms t = [])
    (items : List (Blanks × Atom)) :
    listedAtoms (furtherAtoms items ++ t) = items.map (·.2.text) := by
  induction items with
  | nil => exact ht
  | cons item items ih =>
    obtain ⟨blanks, a⟩ := item
    rw [furtherAtoms_cons, listedAtoms_skip (by decide) (by decide), listedAtoms_blanks,
      listedAtoms_text a (endsAtom_furtherAtoms hend), ih, List.map_cons]

theorem listedAtoms_spacedListing {t : Text} (hend : endsAtom t = true) (ht : listedAtoms t = [])
    (items : List (Blanks × Atom)) :
    listedAtoms (spacedListing items ++ t) = items.map (·.2.text) := by
  cases items with
  | nil => exact ht
  | cons item items =>
    rw [spacedListing, List.append_assoc, listedAtoms_text item.2 (endsAtom_furtherAtoms hend),
      listedAtoms_furtherAtoms hend ht, List.map_cons]

/-- Whatever the text, what is extracted from it is an atom by itself, stands in it one behind the
other and is parsed as a batch without a loss, so that no answer sets have diagnostics. Of a listing of
atoms, in braces or not, exactly the texts of the atoms are extracted. -/
theorem extraction_parses :
    (∀ s, IsExtract (programFacts s) s ∧ IsExtract (listedAtoms s) s ∧
      (readAnswerSets s).diagnostics = []) ∧
    ∀ items : List (Blanks × Atom),
      listedAtoms (spacedListing items) = items.map (·.2.text) ∧
      listedAtoms ('\x7b' :: spacedListing items ++ ['\x7d']) = items.map (·.2.text) := by
  refine ⟨?_, ?_⟩
  · intro s
    exact ⟨isExtract_programFacts s, isExtract_listedAtoms s, readAnswerSets_diagnostics s⟩
  · intro items
    have hbrace : listedAtoms ['\x7d'] = [] := by
      rw [listedAtoms_skip (by decide) (by decide), listedAtoms_nil]
    refine ⟨?_, ?_⟩
    · have hplain := listedAtoms_spacedListing rfl listedAtoms_nil items
      rwa [List.append_nil] at hplain
    · rw [List.cons_append, listedAtoms_skip (by decide) (by decide)]
      exact listedAtoms_spacedListing rfl hbrace items

end FactForm
