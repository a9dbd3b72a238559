import FactForm.Proofs.Template.Segments

/-!
# FactForm.Proofs.Template.Compile

Compiling template texts and writing templates out.

* `PatternLibrary.Accepts`, `Refuses` — what the library says to the patterns of parts.
* `Template.written` — a template as text, each slot written as the marker of its id.
* `Template.IsCanonical` — the shape of the templates that texts compile to.
* `Placeholder.ResolvedBy` — a slot has the label and the source that lookups give for its id.
* `Template.compile_eq_ok_iff` — what compiles to a template.
* `Template.exists_ofParts` — a text gives parts if the lookups know all its markers.
* `Template.compile_written` — compiling and writing out are inverse to each other.
-/

namespace FactForm

namespace PatternLibrary

/-- The library compiles all patterns by which the parts are searched. -/
def Accepts (library : PatternLibrary) (parts : List Part) : Prop :=
  ∀ p ∈ Template.patterns parts, library.refusal? p = none

/-- The message is that of the first pattern that the library refuses. -/
def Refuses (library : PatternLibrary) (parts : List Part) (message : Text) : Prop :=
  ∃ front p back, Template.patterns parts = front ++ p :: back ∧
    (∀ q ∈ front, library.refusal? q = none) ∧ library.refusal? p = some message

def sizeMessage (limit : Nat) : Text :=
  "Compiled regex exceeds size limit of ".toList ++ decimal limit ++ " bytes.".toList

/-- Refuses patterns of more characters than `limit`. -/
def upTo (limit : Nat) : PatternLibrary where
  refusal? p := if limit < p.length then some (sizeMessage limit) else none

theorem accepts_unlimited (parts : List Part) : unlimited.Accepts parts := fun _ _ => rfl

theorem accepts_upTo_iff {limit : Nat} {parts : List Part} :
    (upTo limit).Accepts parts ↔ ∀ p ∈ Template.patterns parts, p.length ≤ limit := by
  simp only [Accepts, upTo, ite_eq_right_iff, reduceCtorEq, imp_false, Nat.not_lt]

theorem length_le_text_literal (text : Text) : text.length ≤ (Pattern.literal text).text.length := by
  induction text with
  | nil => exact Nat.zero_le _
  | cons c text ih =>
    have hchar : 0 < (Symbol.char c).text.length := by
      show 0 < (if Symbol.metaCharacters.contains c then ['\\', c] else [c]).length
      split <;> exact Nat.succ_pos _
    have hcons : (Pattern.literal (c :: text)).text =
        (Symbol.char c).text ++ (Pattern.literal text).text := rfl
    rw [hcons, List.length_append, List.length_cons]
    omega

/-- A template that begins with a fixed text beyond the limit is refused for the pattern of that text,
which comes right after the empty pattern. -/
theorem refuses_upTo {limit : Nat} {text : Text} {parts : List Part} (hlimit : 0 < limit)
    (h : limit < text.length) : (upTo limit).Refuses (.fixed text :: parts) (sizeMessage limit) := by
  have hlong : limit < (Pattern.ofParts [.fixed text]).atFront.length := by
    have htext := length_le_text_literal text
    simp only [Pattern.atFront, Pattern.ofParts, Part.pattern, Pattern.text, List.foldr_cons,
      List.foldr_nil, List.length_append]
    omega
  obtain ⟨back, hpatterns⟩ : ∃ back, Template.patterns (.fixed text :: parts) =
      ['^'] :: (Pattern.ofParts [.fixed text]).atFront :: back := by
    rw [Template.patterns, List.length_cons, List.range_succ_eq_map]
    exact ⟨_, rfl⟩
  refine ⟨[['^']], _, back, hpatterns, ?_, if_pos hlong⟩
  intro q hq
  rw [List.mem_singleton.1 hq]
  exact if_neg (Nat.not_lt.2 hlimit)

end PatternLibrary

def Part.segment : Part → Segment
  | .fixed text => .literal text
  | .slot p => .marker p.id

/-- The lookups give a slot its label and its source. -/
def Placeholder.ResolvedBy (labelOf sourceOf : Text → Option Text) (p : Placeholder) : Prop :=
  labelOf p.id = some p.label ∧ ∃ d, sourceOf p.id = some d ∧ p.source = Source.parse d

namespace Template

def written (t : Template) : Text := t.parts.flatMap fun part => part.segment.text

def IsCanonical (t : Template) : Prop := FactForm.IsCanonical (t.parts.map Part.segment)

variable {library : PatternLibrary} {labelOf sourceOf : Text → Option Text}

theorem ofParts_eq_ok_iff {parts : List Part} {t : Template} :
    ofParts library parts = .ok t ↔ t.parts = parts ∧ library.Accepts parts := by
  have hnone : (patterns parts).findSome? library.refusal? = none ↔ library.Accepts parts :=
    List.findSome?_eq_none_iff
  rw [ofParts, ← hnone]
  cases t
  cases (patterns parts).findSome? library.refusal? <;> simp [eq_comm]

theorem ofParts_eq_error_iff {parts : List Part} {e : TemplateError} :
    ofParts library parts = .error e ↔
      ∃ message, library.Refuses parts message ∧ e = .pattern message := by
  have hsome : ∀ message, (patterns parts).findSome? library.refusal? = some message ↔
      library.Refuses parts message := by
    intro message
    rw [List.findSome?_eq_some_iff, PatternLibrary.Refuses]
    constructor
    · intro h
      obtain ⟨front, p, back, hparts, hp, hfront⟩ := h
      exact ⟨front, p, back, hparts, hfront, hp⟩
    · intro h
      obtain ⟨front, p, back, hparts, hfront, hp⟩ := h
      exact ⟨front, p, back, hparts, hp, hfront⟩
  simp only [← hsome, ofParts]
  cases (patterns parts).findSome? library.refusal? <;> simp [eq_comm]

theorem accepts_or_refuses (library : PatternLibrary) (parts : List Part) :
    library.Accepts parts ∨ ∃ message, library.Refuses parts message := by
  cases h : ofParts library parts with
  | ok t => exact .inl (ofParts_eq_ok_iff.1 h).2
  | error e =>
    obtain ⟨message, hrefuses, _⟩ := ofParts_eq_error_iff.1 h
    exact .inr ⟨message, hrefuses⟩

theorem partOf_marker_eq_ok_iff {id : Text} {part : Part} :
    partOf labelOf sourceOf (.marker id) = .ok part ↔
      ∃ label d, labelOf id = some label ∧ sourceOf id = some d ∧
        part = .slot ⟨id, label, Source.parse d⟩ := by
  simp only [partOf]
  split
  · rename_i hl hd
    simp [hl, hd, eq_comm]
  · rename_i hnone
    constructor
    · intro h
      cases h
    · rintro ⟨label, d, hl, hd, _⟩
      exact absurd hd (hnone label d hl)

theorem partOf_eq_ok_iff {seg : Segment} {part : Part} :
    partOf labelOf sourceOf seg = .ok part ↔
      part.segment = seg ∧ ∀ p ∈ part.placeholder?, p.ResolvedBy labelOf sourceOf := by
  cases seg with
  | literal text => cases part <;> simp [partOf, Part.segment, Part.placeholder?, eq_comm]
  | marker id =>
    rw [partOf_marker_eq_ok_iff]
    constructor
    · rintro ⟨label, d, hl, hd, rfl⟩
      refine ⟨rfl, ?_⟩
      rintro p ⟨⟩
      exact ⟨hl, d, hd, rfl⟩
    · rintro ⟨hseg, hp⟩
      cases part with
      | fixed text => cases hseg
      | slot p =>
        cases hseg
        obtain ⟨hl, d, hd, hsource⟩ := hp p rfl
        exact ⟨p.label, d, hl, hd, by rw [← hsource]⟩

theorem partsOf_cons_eq_ok_iff {seg : Segment} {segs : List Segment} {parts : List Part} :
    partsOf labelOf sourceOf (seg :: segs) = .ok parts ↔
      ∃ part rest, partOf labelOf sourceOf seg = .ok part ∧ partsOf labelOf sourceOf segs = .ok rest ∧
        parts = part :: rest := by
  rw [partsOf]
  cases partOf labelOf sourceOf seg with
  | error e => simp
  | ok part => cases partsOf labelOf sourceOf segs <;> simp [eq_comm]

theorem forall_placeholders_cons {P : Placeholder → Prop} {part : Part} {parts : List Part} :
    (∀ p ∈ (part :: parts).filterMap Part.placeholder?, P p) ↔
      (∀ p ∈ part.placeholder?, P p) ∧ ∀ p ∈ parts.filterMap Part.placeholder?, P p := by
  cases part <;> simp [Part.placeholder?]

theorem partsOf_eq_ok_iff {segs : List Segment} {parts : List Part} :
    partsOf labelOf sourceOf segs = .ok parts ↔
      parts.map Part.segment = segs ∧
        ∀ p ∈ parts.filterMap Part.placeholder?, p.ResolvedBy labelOf sourceOf := by
  induction segs generalizing parts with
  | nil => cases parts <;> simp [partsOf]
  | cons seg segs ih =>
    simp only [partsOf_cons_eq_ok_iff, partOf_eq_ok_iff, ih]
    constructor
    · rintro ⟨part, rest, ⟨rfl, hpart⟩, ⟨rfl, hrest⟩, rfl⟩
      exact ⟨rfl, forall_placeholders_cons.2 ⟨hpart, hrest⟩⟩
    · rintro ⟨hsegs, hp⟩
      cases parts with
      | nil => cases hsegs
      | cons part rest =>
        cases hsegs
        obtain ⟨hpart, hrest⟩ := forall_placeholders_cons.1 hp
        exact ⟨part, rest, ⟨rfl, hpart⟩, ⟨rfl, hrest⟩, rfl⟩

theorem partsOf_segments_eq_ok_iff {s : Text} {t : Template} :
    partsOf labelOf sourceOf (segments s) = .ok t.parts ↔
      t.written = s ∧ t.IsCanonical ∧ ∀ p ∈ t.placeholders, p.ResolvedBy labelOf sourceOf := by
  have hwritten : t.written = (t.parts.map Part.segment).flatMap Segment.text := by
    rw [List.flatMap_map]
    rfl
  rw [partsOf_eq_ok_iff]
  constructor
  · rintro ⟨hparts, hp⟩
    refine ⟨?_, ?_, hp⟩
    · rw [hwritten, hparts, flatMap_text_segments]
    · rw [IsCanonical, hparts]
      exact isCanonical_segments s
  · rintro ⟨rfl, hcan, hp⟩
    refine ⟨?_, hp⟩
    rw [hwritten, segments_flatMap_text hcan]

theorem compile_of_partsOf {s : Text} {parts : List Part}
    (h : partsOf labelOf sourceOf (segments s) = .ok parts) :
    compile library s labelOf sourceOf = ofParts library parts := by
  rw [compile, h]

/-- What compiles to a template is what it writes, and nothing else. -/
theorem compile_eq_ok_iff {s : Text} {t : Template} :
    compile library s labelOf sourceOf = .ok t ↔
      t.written = s ∧ t.IsCanonical ∧ (∀ p ∈ t.placeholders, p.ResolvedBy labelOf sourceOf) ∧
        library.Accepts t.parts := by
  constructor
  · intro h
    cases hparts : partsOf labelOf sourceOf (segments s) with
    | error e => simp [compile, hparts] at h
    | ok parts =>
      rw [compile_of_partsOf hparts, ofParts_eq_ok_iff] at h
      obtain ⟨rfl, haccepts⟩ := h
      obtain ⟨hwritten, hcan, hp⟩ := partsOf_segments_eq_ok_iff.1 hparts
      exact ⟨hwritten, hcan, hp, haccepts⟩
  · intro h
    obtain ⟨hwritten, hcan, hp, haccepts⟩ := h
    rw [compile_of_partsOf (partsOf_segments_eq_ok_iff.2 ⟨hwritten, hcan, hp⟩)]
    exact ofParts_eq_ok_iff.2 ⟨rfl, haccepts⟩

theorem partsOf_total {segs : List Segment}
    (h : ∀ id, .marker id ∈ segs → (labelOf id).isSome ∧ (sourceOf id).isSome) :
    ∃ parts, partsOf labelOf sourceOf segs = .ok parts := by
  induction segs with
  | nil => exact ⟨[], rfl⟩
  | cons seg segs ih =>
    obtain ⟨rest, hrest⟩ := ih fun id hid => h id (List.mem_cons_of_mem _ hid)
    have hpart : ∃ part, partOf labelOf sourceOf seg = .ok part := by
      cases seg with
      | literal text => exact ⟨.fixed text, rfl⟩
      | marker id =>
        obtain ⟨hl, hd⟩ := h id List.mem_cons_self
        obtain ⟨label, hl⟩ := Option.isSome_iff_exists.1 hl
        obtain ⟨d, hd⟩ := Option.isSome_iff_exists.1 hd
        exact ⟨_, partOf_marker_eq_ok_iff.2 ⟨label, d, hl, hd, rfl⟩⟩
    obtain ⟨part, hpart⟩ := hpart
    exact ⟨part :: rest, partsOf_cons_eq_ok_iff.2 ⟨part, rest, hpart, hrest, rfl⟩⟩

theorem exists_ofParts {s : Text}
    (h : ∀ id, HasMarker id s → (labelOf id).isSome ∧ (sourceOf id).isSome) :
    ∃ t : Template, t.written = s ∧ t.IsCanonical ∧
      (∀ p ∈ t.placeholders, p.ResolvedBy labelOf sourceOf) ∧
      ∀ library, compile library s labelOf sourceOf = ofParts library t.parts := by
  obtain ⟨parts, hparts⟩ := partsOf_total fun id hid => h id (marker_mem_segments_iff.1 hid)
  obtain ⟨hwritten, hcan, hp⟩ := partsOf_segments_eq_ok_iff (t := ⟨parts⟩) |>.1 hparts
  exact ⟨⟨parts⟩, hwritten, hcan, hp, fun _ => compile_of_partsOf hparts⟩

/-- Compiling and writing out are inverse to each other, between the texts whose markers have lookups
and the templates of that shape whose slots the lookups describe, as far as the library accepts their
patterns. If it refuses one, its message is the error. -/
theorem compile_written (library : PatternLibrary) (labelOf sourceOf : Text → Option Text) :
    (∀ s, (∀ id, HasMarker id s → (labelOf id).isSome ∧ (sourceOf id).isSome) →
        ∃ t : Template, t.written = s ∧ t.IsCanonical ∧
          (∀ p ∈ t.placeholders, p.ResolvedBy labelOf sourceOf) ∧
          (library.Accepts t.parts → compile library s labelOf sourceOf = .ok t) ∧
          ∀ message, library.Refuses t.parts message →
            compile library s labelOf sourceOf = .error (.pattern message)) ∧
      ∀ t : Template, t.IsCanonical → (∀ p ∈ t.placeholders, p.ResolvedBy labelOf sourceOf) →
        library.Accepts t.parts → compile library t.written labelOf sourceOf = .ok t := by
  constructor
  · intro s hs
    obtain ⟨t, hwritten, hcan, hp, hcompile⟩ := exists_ofParts hs
    refine ⟨t, hwritten, hcan, hp, ?_, ?_⟩
    · intro haccepts
      exact compile_eq_ok_iff.2 ⟨hwritten, hcan, hp, haccepts⟩
    · intro message hrefuses
      rw [hcompile]
      exact ofParts_eq_error_iff.2 ⟨message, hrefuses, rfl⟩
  · intro t hcan hp haccepts
    exact compile_eq_ok_iff.2 ⟨rfl, hcan, hp, haccepts⟩

/-- Three colons before a marker, two markers side by side, and colons before a capital. -/
def colons : Template :=
  ⟨[.fixed "x:".toList, .slot ⟨"a".toList, "a".toList, .any⟩, .slot ⟨"b1".toList, "b1".toList, .any⟩,
    .fixed "::Cé".toList]⟩

theorem colons_isCanonical : colons.IsCanonical := by
  refine isCanonical_literal_cons.2 ⟨by decide, ?_, by simp [Part.segment],
    isCanonical_marker_cons.2 ⟨by decide, by decide, isCanonical_marker_cons.2 ⟨by decide, by decide,
      isCanonical_literal_cons.2 ⟨by decide, ?_, by simp, isCanonical_nil⟩⟩⟩⟩
  all_goals
    intro id
    simp [hasMarker_cons_iff, not_hasMarker_nil, readMarker, readIdentifier]

/-- A text without colons is one fixed part. -/
theorem parts_of_no_colon {t : Template} (hcan : t.IsCanonical) (hne : t.written ≠ [])
    (hcolon : ∀ c ∈ t.written, c ≠ ':') : t.parts = [.fixed t.written] := by
  have hunmarked : ∀ id, ¬ HasMarker id t.written := by
    intro id h
    rw [← List.append_nil t.written, hasMarker_append_iff hcolon] at h
    exact not_hasMarker_nil id h
  have hsegs : t.parts.map Part.segment = [.literal t.written] := by
    calc
      t.parts.map Part.segment = segments t.written := by
        rw [← segments_flatMap_text hcan, List.flatMap_map]
        rfl
      _ = [.literal t.written] := by
        have hliteral : segments (t.written ++ ([] : List Segment).flatMap Segment.text) =
            [.literal t.written] := segments_literal hne hunmarked (by simp) segments_nil
        simpa using hliteral
  obtain ⟨part, hparts, hpart⟩ := List.map_eq_singleton_iff.1 hsegs
  cases part with
  | fixed text => simpa [hparts, Part.segment] using hpart
  | slot p => cases hpart

theorem colons_compile_written :
    colons.written = "x:::a::b1::Cé".toList ∧
      unconstrained (.upTo 10485760) "x:::a::b1::Cé".toList = .ok colons ∧
      unconstrained (.upTo 10485760) (List.replicate 10485761 'a') =
        .error (.pattern "Compiled regex exceeds size limit of 10485760 bytes.".toList) := by
  refine ⟨by decide, ?accepted, ?refused⟩
  case accepted =>
    have hslots : ∀ p ∈ colons.placeholders, p.ResolvedBy some fun _ => some [] := by
      intro p hp
      have hp : p = ⟨"a".toList, "a".toList, .any⟩ ∨ p = ⟨"b1".toList, "b1".toList, .any⟩ := by
        simpa [placeholders, colons, Part.placeholder?, eq_comm] using hp
      rcases hp with rfl | rfl <;> exact ⟨rfl, [], rfl, rfl⟩
    exact (compile_written (.upTo 10485760) some fun _ => some []).2 colons colons_isCanonical hslots
      (PatternLibrary.accepts_upTo_iff.2 (by decide +kernel))
  case refused =>
    obtain ⟨t, hwritten, hcan, -, -, hrefused⟩ :=
      (compile_written (.upTo 10485760) some fun _ => some []).1 (List.replicate 10485761 'a')
        fun _ _ => ⟨rfl, rfl⟩
    have hlong : 10485760 < t.written.length := by
      rw [hwritten, List.length_replicate]
      decide
    have hcolon : ∀ c ∈ t.written, c ≠ ':' := by
      rw [hwritten]
      exact List.forall_mem_replicate.2 (.inr (by decide))
    refine hrefused _ ?_
    rw [parts_of_no_colon hcan (List.ne_nil_of_length_pos (by omega)) hcolon]
    exact PatternLibrary.refuses_upTo (by decide) hlong

end Template

end FactForm
