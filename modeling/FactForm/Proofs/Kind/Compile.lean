import FactForm.Proofs.Entity.Values
import FactForm.Proofs.Kind.Attributes
import FactForm.Proofs.Template.Markers

/-!
# FactForm.Proofs.Kind.Compile

Which definitions of kinds compile. A definition is consistent if all markers of its two texts have
attributes and both texts have the same markers.

* `Kind.Fits` — the template of a text, with labels and sources from the attributes set last.
* `Kind.Accepted`, `Kind.Refused` — what the pattern library says to the template of a text.
* `Kind.Verdict` — the kind of a definition, or its error, told without compiling it.
* `Kind.compile_of_verdict`, `Kind.exists_verdict` — compiling gives the verdict, and there is one.
* `Kind.compile_consistent` — so it succeeds exactly for the consistent definitions that the library
  accepts.
-/

namespace FactForm

/-! ## Templates of a definition -/

namespace Kind

open KindDefinition

/-- The template of a text: it writes the text and has the shape of the templates of texts, and each
slot has the label and the source of the attribute that was set last for its id. -/
structure Fits (calls : List Attribute) (s : Text) (t : Template) : Prop where
  written : t.written = s
  canonical : t.IsCanonical
  slots : ∀ p ∈ t.placeholders, ∃ a, IsLastFor calls p.id a ∧ p.label = a.label ∧
    p.source = Source.parse a.source

/-- The ids of the markers of a text in ascending order, each once. -/
structure Lists (ids : List Text) (s : Text) : Prop where
  ascending : ids.Pairwise fun i j => Text.before i j = true
  mem_iff : ∀ id, id ∈ ids ↔ HasMarker id s

def SameMarkers (s t : Text) : Prop := ∀ id, HasMarker id s ↔ HasMarker id t

def AllDefined (calls : List Attribute) (s : Text) : Prop :=
  ∀ id, HasMarker id s → ¬ IsUndefined calls id

/-- The library compiles the patterns of the template of the text, if the text has one. -/
def Accepted (library : PatternLibrary) (calls : List Attribute) (s : Text) : Prop :=
  ∀ t, Fits calls s t → library.Accepts t.parts

/-- The library refuses a pattern of the template of the text. -/
def Refused (library : PatternLibrary) (calls : List Attribute) (s message : Text) : Prop :=
  ∃ t, Fits calls s t ∧ library.Refuses t.parts message

/-- The text compiles by itself. -/
structure Compiles (library : PatternLibrary) (calls : List Attribute) (s : Text) : Prop where
  defined : AllDefined calls s
  accepted : Accepted library calls s

/-- What becomes of a definition: a kind, or the first error that applies. The display text is compiled
before the atom text is looked at. -/
inductive Verdict (library : PatternLibrary) (display atom : Text) (calls : List Attribute) :
    Except TemplateError Kind → Prop where
  | unknownInDisplay {id : Text} (first : IsFirstMarker (IsUndefined calls) display id) :
      Verdict library display atom calls (.error (.unknownPlaceholder id))
  | refusedDisplay {message : Text} (refused : Refused library calls display message) :
      Verdict library display atom calls (.error (.pattern message))
  | unknownInAtom {id : Text} (displayCompiles : Compiles library calls display)
      (first : IsFirstMarker (IsUndefined calls) atom id) :
      Verdict library display atom calls (.error (.unknownPlaceholder id))
  | refusedAtom {message : Text} (displayCompiles : Compiles library calls display)
      (refused : Refused library calls atom message) :
      Verdict library display atom calls (.error (.pattern message))
  | mismatched {displayIds atomIds : List Text} (displayCompiles : Compiles library calls display)
      (atomCompiles : Compiles library calls atom) (differ : ¬ SameMarkers display atom)
      (displayLists : Lists displayIds display) (atomLists : Lists atomIds atom) :
      Verdict library display atom calls (.error (.mismatchedPlaceholders displayIds atomIds))
  | compiled {k : Kind} (same : SameMarkers display atom)
      (displayFits : Fits calls display k.codec.display) (atomFits : Fits calls atom k.codec.atom)
      (displayAccepted : library.Accepts k.codec.display.parts)
      (atomAccepted : library.Accepts k.codec.atom.parts) :
      Verdict library display atom calls (.ok k)

variable {library : PatternLibrary} {display atom s u : Text} {calls : List Attribute} {t : Template}
  {id : Text} {e : TemplateError} {k : Kind}

theorem isUnknown_ofCalls (display atom : Text) (calls : List Attribute) :
    Template.IsUnknown (ofCalls display atom calls).labelOf (ofCalls display atom calls).sourceOf =
      IsUndefined calls := by
  funext id
  rw [← attribute?_ofCalls_eq_none_iff display atom]
  simp [Template.IsUnknown, labelOf, sourceOf]

theorem resolvedBy_ofCalls (display atom : Text) {p : Placeholder} :
    p.ResolvedBy (ofCalls display atom calls).labelOf (ofCalls display atom calls).sourceOf ↔
      ∃ a, IsLastFor calls p.id a ∧ p.label = a.label ∧ p.source = Source.parse a.source := by
  simp only [Placeholder.ResolvedBy, labelOf, sourceOf, Option.map_eq_some_iff, attribute?_ofCalls]
  constructor
  · intro h
    obtain ⟨⟨a, ha, hlabel⟩, _, ⟨b, hb, rfl⟩, hsource⟩ := h
    have hab : a = b := ha.unique hb
    exact ⟨a, ha, hlabel.symm, hab ▸ hsource⟩
  · intro h
    obtain ⟨a, ha, hlabel, hsource⟩ := h
    exact ⟨⟨a, ha, hlabel.symm⟩, a.source, ⟨a, ha, rfl⟩, hsource⟩

theorem fits_iff (display atom : Text) :
    Fits calls s t ↔ t.written = s ∧ t.IsCanonical ∧ ∀ p ∈ t.placeholders,
      p.ResolvedBy (ofCalls display atom calls).labelOf (ofCalls display atom calls).sourceOf := by
  simp only [resolvedBy_ofCalls]
  constructor
  · intro h
    exact ⟨h.written, h.canonical, h.slots⟩
  · intro h
    exact ⟨h.1, h.2.1, h.2.2⟩

theorem compile_text_eq_ok_iff (display atom : Text) :
    Template.compile library s (ofCalls display atom calls).labelOf
        (ofCalls display atom calls).sourceOf = .ok t ↔
      Fits calls s t ∧ library.Accepts t.parts := by
  rw [Template.compile_eq_ok_iff, fits_iff display atom, and_assoc, and_assoc]

theorem compile_text_eq_error_iff (display atom : Text) :
    Template.compile library s (ofCalls display atom calls).labelOf
        (ofCalls display atom calls).sourceOf = .error e ↔
      (∃ id, IsFirstMarker (IsUndefined calls) s id ∧ e = .unknownPlaceholder id) ∨
      ∃ message, Refused library calls s message ∧ e = .pattern message := by
  rw [Template.compile_eq_error_iff, isUnknown_ofCalls]
  refine or_congr_right ?_
  constructor
  · intro h
    obtain ⟨t, hwritten, hcan, hp, message, hrefuses, he⟩ := h
    exact ⟨message, ⟨t, (fits_iff display atom).2 ⟨hwritten, hcan, hp⟩, hrefuses⟩, he⟩
  · intro h
    obtain ⟨message, ⟨t, hfits, hrefuses⟩, he⟩ := h
    obtain ⟨hwritten, hcan, hp⟩ := (fits_iff display atom).1 hfits
    exact ⟨t, hwritten, hcan, hp, message, hrefuses, he⟩

theorem Fits.mem_ids_iff (h : Fits calls s t) : id ∈ t.ids ↔ HasMarker id s := by
  rw [Template.mem_ids_iff_hasMarker h.canonical, h.written]

theorem Fits.allDefined (h : Fits calls s t) : AllDefined calls s := by
  intro id hid hundefined
  obtain ⟨p, hp, rfl⟩ := List.mem_map.1 (h.mem_ids_iff.2 hid)
  obtain ⟨a, ⟨front, rest, hcalls, ha, _⟩, _⟩ := h.slots p hp
  exact hundefined a (by simp [hcalls]) ha

theorem fits_or_undefined (calls : List Attribute) (s : Text) :
    (∃ t, Fits calls s t) ∨ ∃ id, IsFirstMarker (IsUndefined calls) s id := by
  cases hcompile : Template.compile .unlimited s (ofCalls [] [] calls).labelOf
      (ofCalls [] [] calls).sourceOf with
  | ok t => exact .inl ⟨t, ((compile_text_eq_ok_iff [] []).1 hcompile).1⟩
  | error e =>
    rcases (compile_text_eq_error_iff [] []).1 hcompile with ⟨id, hfirst, _⟩ | ⟨_, hrefused, _⟩
    · exact .inr ⟨id, hfirst⟩
    · obtain ⟨t, hfits, _⟩ := hrefused
      exact .inl ⟨t, hfits⟩

theorem exists_fits (h : AllDefined calls s) : ∃ t, Fits calls s t := by
  rcases fits_or_undefined calls s with ht | ⟨id, hfirst⟩
  · exact ht
  · exact absurd hfirst.property (h id hfirst.hasMarker)

theorem Fits.unique {t' : Template} (h : Fits calls s t) (h' : Fits calls s t') : t = t' := by
  have hcompile := (compile_text_eq_ok_iff [] []).2 ⟨h, PatternLibrary.accepts_unlimited _⟩
  have hcompile' := (compile_text_eq_ok_iff [] []).2 ⟨h', PatternLibrary.accepts_unlimited _⟩
  exact Except.ok.inj (hcompile.symm.trans hcompile')

theorem Fits.compiles (h : Fits calls s t) (haccepts : library.Accepts t.parts) :
    Compiles library calls s := by
  refine ⟨h.allDefined, ?_⟩
  intro t' h'
  rwa [h'.unique h]

theorem Compiles.exists_fits (h : Compiles library calls s) :
    ∃ t, Fits calls s t ∧ library.Accepts t.parts := by
  obtain ⟨t, ht⟩ := Kind.exists_fits h.defined
  exact ⟨t, ht, h.accepted t ht⟩

theorem compiles_cases (library : PatternLibrary) (calls : List Attribute) (s : Text) :
    Compiles library calls s ∨ (∃ id, IsFirstMarker (IsUndefined calls) s id) ∨
      ∃ message, Refused library calls s message := by
  rcases fits_or_undefined calls s with ⟨t, ht⟩ | hundefined
  · rcases Template.accepts_or_refuses library t.parts with haccepts | ⟨message, hrefuses⟩
    · exact .inl (ht.compiles haccepts)
    · exact .inr (.inr ⟨message, t, ht, hrefuses⟩)
  · exact .inr (.inl hundefined)

/-! ## Lists of ids -/

theorem Fits.lists (h : Fits calls s t) : Lists t.idSet.keys s := by
  refine ⟨List.pairwise_map.2 t.idSet.ascending, ?_⟩
  intro id
  rw [Template.mem_keys_idSet, h.mem_ids_iff]

theorem Lists.unique {ids ids' : List Text} (h : Lists ids s) (h' : Lists ids' s) : ids = ids' := by
  have hnodup : ∀ {l : List Text}, (l.Pairwise fun i j => Text.before i j = true) → l.Nodup := by
    intro l hl
    refine hl.imp ?_
    intro i j hij heq
    exact Text.strictOrder.not_self (heq ▸ hij)
  have hperm : ids.Perm ids' := by
    rw [List.perm_ext_iff_of_nodup (hnodup h.ascending) (hnodup h'.ascending)]
    intro id
    rw [h.mem_iff, h'.mem_iff]
  refine hperm.eq_of_pairwise ?_ h.ascending h'.ascending
  intro i j _ _ hij hji
  simp [Text.strictOrder.asymm hij] at hji

theorem eq_of_keys {d d' : Dictionary Unit} (h : d.keys = d'.keys) : d = d' := by
  have hname : Function.Injective fun e : Text × Unit => e.1 := by
    intro e e' he
    exact Prod.ext he rfl
  have hentries : d.entries = d'.entries := List.map_injective_iff.2 hname h
  cases d
  cases d'
  simpa using hentries

theorem idSet_eq_iff {t' : Template} (h : Fits calls s t) (h' : Fits calls u t') :
    t.idSet = t'.idSet ↔ SameMarkers s u := by
  constructor
  · intro heq id
    rw [← h.mem_ids_iff, ← h'.mem_ids_iff, ← Template.mem_keys_idSet, heq, Template.mem_keys_idSet]
  · intro hsame
    have hlists : Lists t.idSet.keys u := by
      refine ⟨h.lists.ascending, ?_⟩
      intro id
      rw [h.lists.mem_iff, hsame id]
    exact eq_of_keys (hlists.unique h'.lists)

/-! ## Compiling a definition -/

theorem compile_of_display_error
    (h : (∃ id, IsFirstMarker (IsUndefined calls) display id ∧ e = .unknownPlaceholder id) ∨
      ∃ message, Refused library calls display message ∧ e = .pattern message) :
    compile library (ofCalls display atom calls) = .error e := by
  have hdisplay := (compile_text_eq_error_iff display atom).2 h
  rw [compile, (texts_ofCalls display atom calls).1, hdisplay]

theorem compile_of_atom_error (hdisplay : Compiles library calls display)
    (h : (∃ id, IsFirstMarker (IsUndefined calls) atom id ∧ e = .unknownPlaceholder id) ∨
      ∃ message, Refused library calls atom message ∧ e = .pattern message) :
    compile library (ofCalls display atom calls) = .error e := by
  obtain ⟨t, ht⟩ := hdisplay.exists_fits
  have hdisplay' := (compile_text_eq_ok_iff display atom).2 ht
  have hatom := (compile_text_eq_error_iff display atom).2 h
  rw [compile, (texts_ofCalls display atom calls).1, hdisplay', (texts_ofCalls display atom calls).2]
  simp only [hatom]

theorem compile_of_fits {t' : Template} (hdisplay : Fits calls display t)
    (hatom : Fits calls atom t') (displayAccepted : library.Accepts t.parts)
    (atomAccepted : library.Accepts t'.parts) :
    compile library (ofCalls display atom calls) =
      match Codec.ofTemplates t t' with
      | .error e => .error e
      | .ok codec => .ok ⟨codec⟩ := by
  have hdisplay' := (compile_text_eq_ok_iff display atom).2 ⟨hdisplay, displayAccepted⟩
  have hatom' := (compile_text_eq_ok_iff display atom).2 ⟨hatom, atomAccepted⟩
  cases hcodec : Codec.ofTemplates t t' <;>
    simp [compile, texts_ofCalls display atom calls, hdisplay', hatom', hcodec]

theorem compile_of_verdict {r : Except TemplateError Kind}
    (h : Verdict library display atom calls r) :
    compile library (ofCalls display atom calls) = r := by
  cases h with
  | unknownInDisplay first => exact compile_of_display_error (.inl ⟨_, first, rfl⟩)
  | refusedDisplay refused => exact compile_of_display_error (.inr ⟨_, refused, rfl⟩)
  | unknownInAtom displayCompiles first =>
    exact compile_of_atom_error displayCompiles (.inl ⟨_, first, rfl⟩)
  | refusedAtom displayCompiles refused =>
    exact compile_of_atom_error displayCompiles (.inr ⟨_, refused, rfl⟩)
  | mismatched displayCompiles atomCompiles differ displayLists atomLists =>
    obtain ⟨t, ht, haccepts⟩ := displayCompiles.exists_fits
    obtain ⟨t', ht', haccepts'⟩ := atomCompiles.exists_fits
    have hdiffer : t.idSet ≠ t'.idSet := mt (idSet_eq_iff ht ht').1 differ
    rw [compile_of_fits ht ht' haccepts haccepts', Codec.ofTemplates, dif_neg hdiffer,
      displayLists.unique ht.lists, atomLists.unique ht'.lists]
  | @compiled k same displayFits atomFits displayAccepted atomAccepted =>
    have hsame : k.codec.display.idSet = k.codec.atom.idSet := k.codec.same_ids
    rw [compile_of_fits displayFits atomFits displayAccepted atomAccepted, Codec.ofTemplates,
      dif_pos hsame]

theorem exists_verdict (library : PatternLibrary) (display atom : Text) (calls : List Attribute) :
    ∃ r, Verdict library display atom calls r := by
  rcases compiles_cases library calls display with hdisplay | ⟨id, hfirst⟩ | ⟨message, hrefused⟩
  · rcases compiles_cases library calls atom with hatom | ⟨id, hfirst⟩ | ⟨message, hrefused⟩
    · obtain ⟨t, ht, haccepts⟩ := hdisplay.exists_fits
      obtain ⟨t', ht', haccepts'⟩ := hatom.exists_fits
      by_cases hsame : t.idSet = t'.idSet
      · have hmarkers := (idSet_eq_iff ht ht').1 hsame
        exact ⟨.ok ⟨⟨t, t', hsame⟩⟩, .compiled hmarkers ht ht' haccepts haccepts'⟩
      · have hdiffer := mt (idSet_eq_iff ht ht').2 hsame
        exact ⟨_, .mismatched hdisplay hatom hdiffer ht.lists ht'.lists⟩
    · exact ⟨_, .unknownInAtom hdisplay hfirst⟩
    · exact ⟨_, .refusedAtom hdisplay hrefused⟩
  · exact ⟨_, .unknownInDisplay hfirst⟩
  · exact ⟨_, .refusedDisplay hrefused⟩

theorem compile_eq_iff_verdict {r : Except TemplateError Kind} :
    compile library (ofCalls display atom calls) = r ↔ Verdict library display atom calls r := by
  constructor
  · intro h
    obtain ⟨r', hr'⟩ := exists_verdict library display atom calls
    rw [compile_of_verdict hr'] at h
    exact h ▸ hr'
  · exact compile_of_verdict

theorem exists_compile_iff :
    (∃ k, compile library (ofCalls display atom calls) = .ok k) ↔
      Compiles library calls display ∧ Compiles library calls atom ∧ SameMarkers display atom := by
  constructor
  · intro h
    obtain ⟨k, hk⟩ := h
    cases compile_eq_iff_verdict.1 hk with
    | compiled same displayFits atomFits displayAccepted atomAccepted =>
      exact ⟨displayFits.compiles displayAccepted, atomFits.compiles atomAccepted, same⟩
  · intro h
    obtain ⟨hdisplay, hatom, hsame⟩ := h
    obtain ⟨t, ht, haccepts⟩ := hdisplay.exists_fits
    obtain ⟨t', ht', haccepts'⟩ := hatom.exists_fits
    exact ⟨⟨⟨t, t', (idSet_eq_iff ht ht').2 hsame⟩⟩,
      compile_of_verdict (.compiled hsame ht ht' haccepts haccepts')⟩

/-- A definition has for each id the attribute that was set last. If the library accepts the templates
of its texts, it compiles exactly if it is consistent: all markers of its texts have attributes, and
both texts have the same markers. What it compiles to, a kind with these attributes or an error, is the
verdict. -/
theorem compile_consistent (library : PatternLibrary) (display atom : Text)
    (calls : List Attribute) :
    (((ofTemplates display atom).withAttributes calls).attributes.map (·.id)).Nodup ∧
    (∀ a, a ∈ ((ofTemplates display atom).withAttributes calls).attributes ↔
      IsLastFor calls a.id a) ∧
    (Accepted library calls display → Accepted library calls atom →
      ((∃ k, compile library ((ofTemplates display atom).withAttributes calls) = .ok k) ↔
        AllDefined calls display ∧ AllDefined calls atom ∧ SameMarkers display atom)) ∧
    ((∃ k, compile library ((ofTemplates display atom).withAttributes calls) = .ok k) ↔
      Compiles library calls display ∧ Compiles library calls atom ∧ SameMarkers display atom) ∧
    ∀ r, compile library ((ofTemplates display atom).withAttributes calls) = r ↔
      Verdict library display atom calls r := by
  refine ⟨nodup_ofCalls display atom calls, ?_, ?_, exists_compile_iff, ?_⟩
  · intro a
    exact mem_ofCalls display atom
  · intro hdisplay hatom
    constructor
    · intro h
      obtain ⟨hd, ha, hsame⟩ := exists_compile_iff.1 h
      exact ⟨hd.defined, ha.defined, hsame⟩
    · intro h
      obtain ⟨hd, ha, hsame⟩ := h
      exact exists_compile_iff.2 ⟨⟨hd, hdisplay⟩, ⟨ha, hatom⟩, hsame⟩
  · intro r
    exact compile_eq_iff_verdict

/-! ## A definition with one attribute -/

namespace Mode

def mode : Attribute := ⟨['m'], "mode".toList, []⟩

def slot : Placeholder := ⟨['m'], "mode".toList, .any⟩

def bare : Template := ⟨[.slot slot]⟩

def wrappedIn (name : Text) : Template := ⟨[.fixed (name ++ ['(']), .slot slot, .fixed [')']]⟩

def wrapped : Template := wrappedIn "mode".toList

theorem fits {t : Template} (hcanonical : t.IsCanonical) (hslots : t.placeholders = [slot]) :
    Fits [mode] t.written t := by
  refine ⟨rfl, hcanonical, ?_⟩
  intro p hp
  rw [hslots, List.mem_singleton] at hp
  subst hp
  exact ⟨mode, ⟨[], [], rfl, rfl, by simp⟩, rfl, rfl⟩

theorem isCanonical_bare : bare.IsCanonical :=
  isCanonical_marker_cons.2 ⟨by decide, by decide, isCanonical_nil⟩

theorem written_wrappedIn (name : Text) : (wrappedIn name).written = name ++ "(::m)".toList := by
  simp [wrappedIn, slot, Template.written, Part.segment, Segment.text]

theorem isCanonical_wrappedIn {name : Text} (h : ∀ c ∈ name, c ≠ ':') :
    (wrappedIn name).IsCanonical := by
  refine isCanonical_literal_cons.2 ⟨by simp, ?_, by simp [Part.segment],
    isCanonical_marker_cons.2 ⟨by decide, by decide,
      isCanonical_literal_cons.2 ⟨by simp, ?_, by simp, isCanonical_nil⟩⟩⟩
  · intro id
    simp [hasMarker_append_iff h, hasMarker_cons_iff, not_hasMarker_nil, readMarker]
  · intro id
    simp [hasMarker_cons_iff, not_hasMarker_nil, readMarker]

theorem isCanonical_wrapped : wrapped.IsCanonical := isCanonical_wrappedIn (by simp)

end Mode

/-- The kind compiles, but not with a name beyond the limit of size: the display template is accepted,
and the template for atoms is refused. -/
theorem mode_compile_consistent :
    (∃ k, compile (.upTo 10485760)
      ((ofTemplates "::m".toList "mode(::m)".toList).withAttributes [Mode.mode]) = .ok k) ∧
    compile (.upTo 10485760)
        ((ofTemplates "::m".toList (List.replicate 10485761 'm' ++ "(::m)".toList)).withAttributes
          [Mode.mode]) =
      .error (.pattern "Compiled regex exceeds size limit of 10485760 bytes.".toList) := by
  have hdisplay : Fits [Mode.mode] "::m".toList Mode.bare := Mode.fits Mode.isCanonical_bare rfl
  have hatom : Fits [Mode.mode] "mode(::m)".toList Mode.wrapped := Mode.fits Mode.isCanonical_wrapped rfl
  have hbare : PatternLibrary.Accepts (.upTo 10485760) Mode.bare.parts :=
    PatternLibrary.accepts_upTo_iff.2 (by decide +kernel)
  have hwrapped : PatternLibrary.Accepts (.upTo 10485760) Mode.wrapped.parts :=
    PatternLibrary.accepts_upTo_iff.2 (by decide +kernel)
  constructor
  · obtain ⟨-, -, hconsistent, -, -⟩ :=
      compile_consistent (.upTo 10485760) "::m".toList "mode(::m)".toList [Mode.mode]
    exact (hconsistent (hdisplay.compiles hbare).accepted (hatom.compiles hwrapped).accepted).2
      ⟨hdisplay.allDefined, hatom.allDefined, (idSet_eq_iff hdisplay hatom).1 rfl⟩
  · generalize hname : List.replicate 10485761 'm' = name
    have hlength : 10485760 < (name ++ ['(']).length := by
      rw [← hname, List.length_append, List.length_replicate]
      decide
    have hcolon : ∀ c ∈ name, c ≠ ':' := by
      rw [← hname]
      exact List.forall_mem_replicate.2 (.inr (by decide))
    have hlong := Mode.fits (Mode.isCanonical_wrappedIn hcolon) rfl
    rw [Mode.written_wrappedIn] at hlong
    obtain ⟨-, -, -, -, hverdict⟩ :=
      compile_consistent (.upTo 10485760) "::m".toList (name ++ "(::m)".toList) [Mode.mode]
    have hrefuses : PatternLibrary.Refuses (.upTo 10485760) (Mode.wrappedIn name).parts _ :=
      PatternLibrary.refuses_upTo (by decide) hlength
    exact (hverdict _).2 (.refusedAtom (hdisplay.compiles hbare) ⟨_, hlong, hrefuses⟩)

end Kind

end FactForm
