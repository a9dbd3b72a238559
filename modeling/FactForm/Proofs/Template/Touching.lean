import FactForm.Proofs.Template.Compile
import FactForm.Proofs.Template.Walk

/-!
# FactForm.Proofs.Template.Touching

Which template texts compile to separated templates. What follows a marker never begins with a word
character, since the identifier would go on, so a slot lacks a fixed text behind it only if another
marker stands right there.

* `MarkersTouch` — a marker begins in the text right where another ends.
* `isChain_segments_iff` — no markers touch exactly if no two are neighbours among the segments.
* `separated_iff_isChain` — and these are the segments of separated parts.
* `Template.isSeparated_iff` — so a compiled template is separated exactly if no markers touch.
-/

namespace FactForm

/-- Somewhere in the text a marker begins right where another ends. -/
def MarkersTouch (s : Text) : Prop :=
  ∃ lead id next rest, isIdentifier id = true ∧ isIdentifier next = true ∧
    s = lead ++ ':' :: ':' :: (id ++ ':' :: ':' :: (next ++ rest))

/-- One of two neighbouring segments is no marker. -/
def Segment.Apart : Segment → Segment → Prop
  | .marker _, .marker _ => False
  | _, _ => True

/-! ## Markers in a text -/

theorem readMarker_ne_none_of_isIdentifier {id : Text} (h : isIdentifier id = true) (rest : Text) :
    readMarker (':' :: ':' :: (id ++ rest)) ≠ none := by
  cases id with
  | nil => cases h
  | cons c r => exact readMarker_ne_none_iff.2 ⟨c, r ++ rest, rfl, (isIdentifier_cons.1 h).1⟩

theorem not_markersTouch_nil : ¬ MarkersTouch [] := by
  rintro ⟨lead, id, next, rest, _, _, hs⟩
  cases lead <;> cases hs

theorem markersTouch_cons_iff {c : Char} {s : Text} :
    MarkersTouch (c :: s) ↔
      (∃ id rest, readMarker (c :: s) = some (id, rest) ∧ readMarker rest ≠ none) ∨
        MarkersTouch s := by
  constructor
  · rintro ⟨lead, id, next, rest, hid, hnext, hs⟩
    cases lead with
    | nil =>
      refine .inl ⟨id, ':' :: ':' :: (next ++ rest), ?_, readMarker_ne_none_of_isIdentifier hnext rest⟩
      exact readMarker_eq_some_iff.2 ⟨hid, isBoundary_cons.2 (by decide), hs⟩
    | cons x lead => exact .inr ⟨lead, id, next, rest, hid, hnext, (List.cons.inj hs).2⟩
  · rintro (⟨id, rest, hread, hrest⟩ | ⟨lead, id, next, rest, hid, hnext, hs⟩)
    · obtain ⟨hid, _, hs⟩ := readMarker_eq_some_iff.1 hread
      obtain ⟨⟨next, later⟩, hnext⟩ := Option.ne_none_iff_exists'.1 hrest
      obtain ⟨hidNext, _, hrest⟩ := readMarker_eq_some_iff.1 hnext
      exact ⟨[], id, next, later, hid, hidNext, by rw [hs, hrest]; rfl⟩
    · exact ⟨c :: lead, id, next, rest, hid, hnext, by rw [hs]; rfl⟩

theorem markersTouch_of_not_readMarker {c : Char} {s : Text} (h : readMarker (c :: s) = none) :
    MarkersTouch (c :: s) ↔ MarkersTouch s := by
  rw [markersTouch_cons_iff, h]
  simp

theorem markersTouch_append_iff {w rest : Text} (hw : ∀ c ∈ w, c ≠ ':') :
    MarkersTouch (w ++ rest) ↔ MarkersTouch rest := by
  induction w with
  | nil => rfl
  | cons c w ih =>
    have hc : c ≠ ':' := hw c List.mem_cons_self
    rw [List.cons_append, markersTouch_of_not_readMarker (readMarker_of_ne hc _),
      ih fun d hd => hw d (List.mem_cons_of_mem _ hd)]

theorem markersTouch_of_readMarker {s id rest : Text} (h : readMarker s = some (id, rest)) :
    MarkersTouch s ↔ readMarker rest ≠ none ∨ MarkersTouch rest := by
  obtain ⟨hid, _, rfl⟩ := readMarker_eq_some_iff.1 h
  rw [markersTouch_cons_iff, markersTouch_of_not_readMarker (readMarker_colon hid rest),
    markersTouch_append_iff (isIdentifier_ne_colon hid), h]
  simp

/-! ## Neighbours among the segments -/

theorem isChain_literal_cons {text : Text} {segs : List Segment} :
    (Segment.literal text :: segs).IsChain Segment.Apart ↔ segs.IsChain Segment.Apart := by
  rw [List.isChain_cons]
  exact and_iff_right fun _ _ => trivial

theorem isChain_consLiteral {c : Char} {segs : List Segment} :
    (consLiteral c segs).IsChain Segment.Apart ↔ segs.IsChain Segment.Apart := by
  unfold consLiteral
  split <;> simp only [isChain_literal_cons]

theorem exists_head_consLiteral (c : Char) (segs : List Segment) :
    ∃ text, (consLiteral c segs).head? = some (.literal text) := by
  unfold consLiteral
  split <;> exact ⟨_, rfl⟩

theorem apart_head_segments_iff {id rest : Text} :
    (∀ seg ∈ (segments rest).head?, Segment.Apart (.marker id) seg) ↔ readMarker rest = none := by
  cases hread : readMarker rest with
  | some q => simp [segments_of_readMarker hread, Segment.Apart]
  | none =>
    cases rest with
    | nil => simp [segments_nil]
    | cons c r =>
      obtain ⟨text, htext⟩ := exists_head_consLiteral c (segments r)
      rw [segments_of_not_readMarker hread, htext]
      simp [Segment.Apart]

theorem isChain_segments_iff (s : Text) :
    (segments s).IsChain Segment.Apart ↔ ¬ MarkersTouch s := by
  fun_induction segments s with
  | case1 => simp [not_markersTouch_nil]
  | case2 c r id rest h ih =>
    rw [List.isChain_cons, apart_head_segments_iff, ih, markersTouch_of_readMarker h]
    simp
  | case3 c r h ih => rw [isChain_consLiteral, ih, markersTouch_of_not_readMarker h]

/-! ## Separated templates -/

/-- The literal behind a marker cannot continue its identifier, so any literal closes the slot. -/
theorem closesSlot_iff_apart {id : Text} {parts : List Part}
    (h : IsCanonical (.marker id :: parts.map Part.segment)) :
    closesSlot parts = true ↔
      ∀ seg ∈ (parts.map Part.segment).head?, Segment.Apart (.marker id) seg := by
  obtain ⟨_, hboundary, hcan⟩ := isCanonical_marker_cons.1 h
  rcases parts with _ | ⟨text | p, parts⟩
  · simp [closesSlot]
  · have hne : text ≠ [] := hcan.nonempty text List.mem_cons_self
    obtain ⟨c, r, rfl⟩ := List.exists_cons_of_ne_nil hne
    have hc : isWordChar c = false := isBoundary_cons.1 hboundary
    simp [closesSlot, hc, Part.segment, Segment.Apart]
  · simp [closesSlot, Part.segment, Segment.Apart]

theorem separated_iff_isChain {parts : List Part} (h : IsCanonical (parts.map Part.segment)) :
    separated parts = true ↔ (parts.map Part.segment).IsChain Segment.Apart := by
  induction parts with
  | nil => simp [separated]
  | cons part parts ih =>
    cases part with
    | fixed text =>
      obtain ⟨_, _, _, hcan⟩ := isCanonical_literal_cons.1 h
      rw [separated, ih hcan]
      exact isChain_literal_cons.symm
    | slot p =>
      have hclose := closesSlot_iff_apart h
      obtain ⟨_, _, hcan⟩ := isCanonical_marker_cons.1 h
      rw [separated_slot, hclose, ih hcan]
      exact List.isChain_cons.symm

theorem Template.isSeparated_iff {library : PatternLibrary} {s : Text}
    {labelOf sourceOf : Text → Option Text} {t : Template}
    (h : compile library s labelOf sourceOf = .ok t) : t.isSeparated = true ↔ ¬ MarkersTouch s := by
  obtain ⟨hwritten, hcan, _⟩ := compile_eq_ok_iff.1 h
  have hsegs : t.parts.map Part.segment = segments s := by
    rw [← hwritten, written, ← List.flatMap_map, segments_flatMap_text hcan]
  rw [isSeparated, separated_iff_isChain hcan, hsegs, isChain_segments_iff]

end FactForm
