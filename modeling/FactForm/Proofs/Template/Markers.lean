import FactForm.Proofs.Template.Compile

/-!
# FactForm.Proofs.Template.Markers

The markers of a template text in the order in which they stand in it. A text does not compile exactly
if one of its markers has no label or no source, and the error names the first one.

* `MarkerAt` — the marker of an identifier stands behind a given front of a text.
* `IsFirstMarker` — the first marker of a text that has a property.
* `markerIds` — the identifiers of the markers among segments.
* `find?_markerIds_segments` — the cut text lists its markers as they stand in it.
* `Template.mem_ids_iff_hasMarker` — the ids of a template are the markers of its text.
* `Template.compile_eq_error_iff` — which texts do not compile, and with which error.
-/

namespace FactForm

/-- The marker of an identifier, up to its end, stands behind `lead`. -/
def MarkerAt (id lead s : Text) : Prop :=
  isIdentifier id = true ∧ ∃ rest, s = lead ++ ':' :: ':' :: (id ++ rest) ∧ isBoundary rest = true

/-- The identifier of a marker with the property, of which none stands further left. -/
def IsFirstMarker (P : Text → Prop) (s id : Text) : Prop :=
  ∃ lead, MarkerAt id lead s ∧ P id ∧
    ∀ other lead', MarkerAt other lead' s → P other → lead.length ≤ lead'.length

theorem hasMarker_iff {id s : Text} : HasMarker id s ↔ ∃ lead, MarkerAt id lead s := by
  constructor
  · intro h
    obtain ⟨hid, lead, rest⟩ := h
    exact ⟨lead, hid, rest⟩
  · intro h
    obtain ⟨lead, hid, rest⟩ := h
    exact ⟨hid, lead, rest⟩

theorem IsFirstMarker.hasMarker {P : Text → Prop} {s id : Text} (h : IsFirstMarker P s id) :
    HasMarker id s := by
  obtain ⟨lead, hmarker, _⟩ := h
  exact hasMarker_iff.2 ⟨lead, hmarker⟩

theorem IsFirstMarker.property {P : Text → Prop} {s id : Text} (h : IsFirstMarker P s id) : P id := by
  obtain ⟨_, _, hid, _⟩ := h
  exact hid

/-! ## Places of markers -/

theorem not_markerAt_nil (id lead : Text) : ¬ MarkerAt id lead [] := by
  intro h
  exact not_hasMarker_nil id (hasMarker_iff.2 ⟨lead, h⟩)

theorem markerAt_front_iff {id s : Text} :
    MarkerAt id [] s ↔ ∃ rest, readMarker s = some (id, rest) := by
  constructor
  · intro h
    obtain ⟨hid, rest, hs, hb⟩ := h
    exact ⟨rest, readMarker_eq_some_iff.2 ⟨hid, hb, hs⟩⟩
  · intro h
    obtain ⟨rest, hread⟩ := h
    obtain ⟨hid, hb, hs⟩ := readMarker_eq_some_iff.1 hread
    exact ⟨hid, rest, hs, hb⟩

theorem markerAt_cons_cons {id lead s : Text} {c d : Char} :
    MarkerAt id (c :: lead) (d :: s) ↔ c = d ∧ MarkerAt id lead s := by
  simp only [MarkerAt, List.cons_append, List.cons.injEq]
  constructor
  · intro h
    obtain ⟨hid, rest, ⟨hc, hs⟩, hb⟩ := h
    exact ⟨hc.symm, hid, rest, hs, hb⟩
  · intro h
    obtain ⟨hc, hid, rest, hs, hb⟩ := h
    exact ⟨hid, rest, ⟨hc.symm, hs⟩, hb⟩

theorem markerAt_of_not_readMarker {id lead s : Text} {c : Char} (h : readMarker (c :: s) = none) :
    MarkerAt id lead (c :: s) ↔ ∃ lead', lead = [c] ++ lead' ∧ MarkerAt id lead' s := by
  cases lead with
  | nil => simp [markerAt_front_iff, h]
  | cons d lead => simp [markerAt_cons_cons]

theorem markerAt_append_iff {w rest : Text} (hw : ∀ c ∈ w, c ≠ ':') {id lead : Text} :
    MarkerAt id lead (w ++ rest) ↔ ∃ lead', lead = w ++ lead' ∧ MarkerAt id lead' rest := by
  induction w generalizing lead with
  | nil => simp
  | cons c w ih =>
    have hc : c ≠ ':' := hw c List.mem_cons_self
    have hnone : readMarker (c :: (w ++ rest)) = none := readMarker_of_ne hc (w ++ rest)
    have hw' : ∀ d ∈ w, d ≠ ':' := fun d hd => hw d (List.mem_cons_of_mem _ hd)
    rw [List.cons_append, markerAt_of_not_readMarker hnone]
    constructor
    · intro h
      obtain ⟨lead', rfl, hmarker⟩ := h
      obtain ⟨lead'', rfl, hrest⟩ := (ih hw').1 hmarker
      exact ⟨lead'', rfl, hrest⟩
    · intro h
      obtain ⟨lead', rfl, hrest⟩ := h
      exact ⟨w ++ lead', rfl, (ih hw').2 ⟨lead', rfl, hrest⟩⟩

theorem markerAt_of_readMarker {s i rest : Text} (h : readMarker s = some (i, rest)) {id lead : Text} :
    MarkerAt id lead s ↔
      lead = [] ∧ id = i ∨ ∃ lead', lead = (':' :: ':' :: i) ++ lead' ∧ MarkerAt id lead' rest := by
  obtain ⟨hi, hb, hs⟩ := readMarker_eq_some_iff.1 h
  cases lead with
  | nil => simp [markerAt_front_iff, h, eq_comm]
  | cons c lead =>
    have hsecond : readMarker (':' :: (i ++ rest)) = none := readMarker_colon hi rest
    rw [hs, markerAt_cons_cons, markerAt_of_not_readMarker hsecond]
    constructor
    · intro hmarker
      obtain ⟨rfl, lead', rfl, hbehind⟩ := hmarker
      obtain ⟨front, rfl, hrest⟩ := (markerAt_append_iff (isIdentifier_ne_colon hi)).1 hbehind
      exact .inr ⟨front, rfl, hrest⟩
    · intro hmarker
      rcases hmarker with ⟨hnil, _⟩ | ⟨front, hlead, hrest⟩
      · simp at hnil
      · simp at hlead
        obtain ⟨rfl, rfl⟩ := hlead
        have hbehind := (markerAt_append_iff (isIdentifier_ne_colon hi)).2 ⟨front, rfl, hrest⟩
        exact ⟨rfl, i ++ front, rfl, hbehind⟩

/-! ## The first marker -/

variable {P : Text → Prop}

/-- If the markers with the property are those of a text behind `w`, the first one is the first of that
text. -/
theorem isFirstMarker_congr {s w rest : Text}
    (h : ∀ id lead, P id → (MarkerAt id lead s ↔ ∃ lead', lead = w ++ lead' ∧ MarkerAt id lead' rest))
    (id : Text) : IsFirstMarker P s id ↔ IsFirstMarker P rest id := by
  constructor
  · intro hfirst
    obtain ⟨lead, hmarker, hid, hleft⟩ := hfirst
    obtain ⟨lead', rfl, hmarker'⟩ := (h id lead hid).1 hmarker
    refine ⟨lead', hmarker', hid, ?_⟩
    intro other front hother hP
    have hle := hleft other (w ++ front) ((h other _ hP).2 ⟨front, rfl, hother⟩) hP
    simp only [List.length_append] at hle
    omega
  · intro hfirst
    obtain ⟨lead, hmarker, hid, hleft⟩ := hfirst
    refine ⟨w ++ lead, (h id _ hid).2 ⟨lead, rfl, hmarker⟩, hid, ?_⟩
    intro other front hother hP
    obtain ⟨front', rfl, hother'⟩ := (h other front hP).1 hother
    have hle := hleft other front' hother' hP
    simp only [List.length_append]
    omega

theorem isFirstMarker_front {s i rest : Text} (h : readMarker s = some (i, rest)) (hi : P i)
    (id : Text) : IsFirstMarker P s id ↔ id = i := by
  have hfront : MarkerAt i [] s := markerAt_front_iff.2 ⟨rest, h⟩
  constructor
  · intro hfirst
    obtain ⟨lead, hmarker, _, hleft⟩ := hfirst
    have hle := hleft i [] hfront hi
    have hnil : lead = [] := by simpa using hle
    rw [hnil, markerAt_front_iff, h] at hmarker
    simp at hmarker
    exact hmarker.symm
  · intro hid
    rw [hid]
    exact ⟨[], hfront, hi, by simp⟩

def markerIds (segs : List Segment) : List Text :=
  segs.filterMap fun
    | .literal _ => none
    | .marker id => some id

theorem markerIds_marker (id : Text) (segs : List Segment) :
    markerIds (.marker id :: segs) = id :: markerIds segs := rfl

theorem markerIds_literal (text : Text) (segs : List Segment) :
    markerIds (.literal text :: segs) = markerIds segs := rfl

theorem markerIds_consLiteral (c : Char) (segs : List Segment) :
    markerIds (consLiteral c segs) = markerIds segs := by
  unfold consLiteral
  split <;> rfl

theorem find?_markerIds_segments [DecidablePred P] {s id : Text} :
    (markerIds (segments s)).find? (fun i => decide (P i)) = some id ↔ IsFirstMarker P s id := by
  fun_induction segments s with
  | case1 =>
    simp [markerIds, IsFirstMarker, not_markerAt_nil]
  | case2 c r i rest h ih =>
    rw [markerIds_marker, List.find?_cons]
    by_cases hi : P i
    · simp [hi, isFirstMarker_front h hi, eq_comm]
    · have hshift : ∀ id lead, P id → (MarkerAt id lead (c :: r) ↔
          ∃ lead', lead = (':' :: ':' :: i) ++ lead' ∧ MarkerAt id lead' rest) := by
        intro id lead hid
        have hne : id ≠ i := fun heq => hi (heq ▸ hid)
        simp [markerAt_of_readMarker h, hne]
      rw [isFirstMarker_congr hshift]
      simpa [hi] using ih
  | case3 c r h ih =>
    have hshift : ∀ id lead, P id → (MarkerAt id lead (c :: r) ↔
        ∃ lead', lead = [c] ++ lead' ∧ MarkerAt id lead' r) :=
      fun id lead _ => markerAt_of_not_readMarker h
    rw [isFirstMarker_congr hshift, markerIds_consLiteral, ih]

/-! ## Markers of a template -/

theorem mem_markerIds {id : Text} {segs : List Segment} :
    id ∈ markerIds segs ↔ .marker id ∈ segs := by
  induction segs with
  | nil => simp [markerIds]
  | cons seg segs ih => cases seg <;> simp [markerIds_marker, markerIds_literal, ih]

theorem markerIds_map_segment (parts : List Part) :
    markerIds (parts.map Part.segment) = (parts.filterMap Part.placeholder?).map (·.id) := by
  induction parts with
  | nil => rfl
  | cons part parts ih =>
    cases part with
    | fixed text => exact ih
    | slot p => exact congrArg (p.id :: ·) ih

theorem Template.mem_ids_iff_hasMarker {t : Template} (h : t.IsCanonical) {id : Text} :
    id ∈ t.ids ↔ HasMarker id t.written := by
  have hwritten : t.written = (t.parts.map Part.segment).flatMap Segment.text := by
    rw [List.flatMap_map]
    rfl
  rw [← marker_mem_segments_iff, hwritten, segments_flatMap_text h, ← mem_markerIds,
    markerIds_map_segment]
  rfl

/-! ## Texts that do not compile -/

namespace Template

variable {labelOf sourceOf : Text → Option Text}

/-- One of the lookups does not know the identifier. -/
def IsUnknown (labelOf sourceOf : Text → Option Text) (id : Text) : Prop :=
  labelOf id = none ∨ sourceOf id = none

instance (id : Text) : Decidable (IsUnknown labelOf sourceOf id) :=
  inferInstanceAs (Decidable (labelOf id = none ∨ sourceOf id = none))

theorem partOf_marker_unknown {id : Text} (h : IsUnknown labelOf sourceOf id) :
    partOf labelOf sourceOf (.marker id) = .error (.unknownPlaceholder id) := by
  simp only [partOf]
  split
  · rename_i hlabel hsource
    simp [IsUnknown, hlabel, hsource] at h
  · rfl

theorem exists_partOf_marker {id : Text} (h : ¬ IsUnknown labelOf sourceOf id) :
    ∃ part, partOf labelOf sourceOf (.marker id) = .ok part := by
  simp only [IsUnknown, not_or] at h
  obtain ⟨label, hlabel⟩ := Option.ne_none_iff_exists'.1 h.1
  obtain ⟨source, hsource⟩ := Option.ne_none_iff_exists'.1 h.2
  exact ⟨_, partOf_marker_eq_ok_iff.2 ⟨label, source, hlabel, hsource, rfl⟩⟩

theorem partsOf_cons_of_ok {seg : Segment} {part : Part}
    (h : partOf labelOf sourceOf seg = .ok part) (segs : List Segment) (e : TemplateError) :
    partsOf labelOf sourceOf (seg :: segs) = .error e ↔ partsOf labelOf sourceOf segs = .error e := by
  rw [partsOf, h]
  cases partsOf labelOf sourceOf segs <;> simp

theorem partsOf_eq_error_iff {segs : List Segment} {e : TemplateError} :
    partsOf labelOf sourceOf segs = .error e ↔
      ∃ id, (markerIds segs).find? (fun i => decide (IsUnknown labelOf sourceOf i)) = some id ∧
        e = .unknownPlaceholder id := by
  induction segs with
  | nil => simp [partsOf, markerIds]
  | cons seg segs ih =>
    cases seg with
    | literal text =>
      rw [partsOf_cons_of_ok rfl, markerIds_literal, ih]
    | marker id =>
      rw [markerIds_marker, List.find?_cons]
      by_cases hid : IsUnknown labelOf sourceOf id
      · simp [partsOf, partOf_marker_unknown hid, hid, eq_comm]
      · obtain ⟨part, hpart⟩ := exists_partOf_marker hid
        rw [partsOf_cons_of_ok hpart, ih]
        simp [hid]

theorem partsOf_segments_eq_error_iff {s : Text} {e : TemplateError} :
    partsOf labelOf sourceOf (segments s) = .error e ↔
      ∃ id, IsFirstMarker (IsUnknown labelOf sourceOf) s id ∧ e = .unknownPlaceholder id := by
  rw [partsOf_eq_error_iff]
  simp only [find?_markerIds_segments]

/-- A text does not compile if a marker in it has no label or no source, and the error is the first such
marker, or else if the library refuses one of its patterns. -/
theorem compile_eq_error_iff {library : PatternLibrary} {s : Text} {e : TemplateError} :
    compile library s labelOf sourceOf = .error e ↔
      (∃ id, IsFirstMarker (IsUnknown labelOf sourceOf) s id ∧ e = .unknownPlaceholder id) ∨
      ∃ t : Template, t.written = s ∧ t.IsCanonical ∧
        (∀ p ∈ t.placeholders, p.ResolvedBy labelOf sourceOf) ∧
        ∃ message, library.Refuses t.parts message ∧ e = .pattern message := by
  rw [← partsOf_segments_eq_error_iff]
  cases hparts : partsOf labelOf sourceOf (segments s) with
  | error e' =>
    have hnone : ¬ ∃ t : Template, t.written = s ∧ t.IsCanonical ∧
        (∀ p ∈ t.placeholders, p.ResolvedBy labelOf sourceOf) ∧
        ∃ message, library.Refuses t.parts message ∧ e = .pattern message := by
      intro h
      obtain ⟨t, hwritten, hcan, hp, _⟩ := h
      have hok := partsOf_segments_eq_ok_iff.2 ⟨hwritten, hcan, hp⟩
      simp [hparts] at hok
    simp [compile, hparts, hnone]
  | ok parts =>
    have ht : ∀ t : Template, t.written = s ∧ t.IsCanonical ∧
        (∀ p ∈ t.placeholders, p.ResolvedBy labelOf sourceOf) ↔ t.parts = parts := by
      intro t
      rw [← partsOf_segments_eq_ok_iff, hparts]
      simp [eq_comm]
    rw [compile_of_partsOf hparts, ofParts_eq_error_iff]
    constructor
    · intro h
      obtain ⟨hwritten, hcan, hp⟩ := (ht ⟨parts⟩).2 rfl
      exact .inr ⟨⟨parts⟩, hwritten, hcan, hp, h⟩
    · intro h
      rcases h with h | ⟨t, hwritten, hcan, hp, h⟩
      · cases h
      · rwa [(ht t).1 ⟨hwritten, hcan, hp⟩] at h

end Template

end FactForm
