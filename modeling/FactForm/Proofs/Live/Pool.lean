import FactForm.Proofs.Live.Suggestion

/-!
# FactForm.Proofs.Live.Pool

How the answers for an input depend on the pool, for any template. A pool that grows never makes an
answer worse: a value of which more becomes known can only rise, and an incomplete value is the last
one, so that no check waits behind it. And of two pools only the facts count that a slot draws from,
whatever else they hold and however they are kept.

* `statusOf_mono`, `Scan.status_mono` — more facts do not lower the state of a value, nor of a scan.
* `Template.answers_mono` — status, suggestions and prompt for a pool and a larger one.
* `Scan.status_congr_facts`, `Scan.suggestions_congr_facts` — what does not change the candidates of a
  slot changes nothing.
* `Template.sameAnswers` — pools with the same facts to draw from give the same answers.
-/

namespace FactForm

variable {facts more : List Atom} {scan : Scan} {v r : Text}

/-! ## More facts -/

theorem Status.le_refl (s : Status) : s ≤ s := Nat.le_refl s.rank

theorem Status.invalid_le (s : Status) : .invalid ≤ s := Nat.zero_le s.rank

theorem Status.incomplete_le {s : Status} (h : s ≠ .invalid) : .incomplete ≤ s := by
  cases s with
  | invalid => exact absurd rfl h
  | incomplete => decide
  | valid => decide

theorem Status.ne_invalid_of_le {s t : Status} (h : s ≤ t) (hs : s ≠ .invalid) : t ≠ .invalid := by
  rintro rfl
  cases s with
  | invalid => exact hs rfl
  | incomplete => exact absurd h (by decide)
  | valid => exact absurd h (by decide)

theorem Source.Admits.mono {source : Source} (hsub : ∀ a ∈ facts, a ∈ more)
    (h : source.Admits facts v) : source.Admits more v := by
  cases source with
  | any => trivial
  | builtin type => exact h
  | argument predicate index =>
    obtain ⟨a, ha, hp, hv⟩ := h
    exact ⟨a, hsub a ha, hp, hv⟩

theorem statusOf_mono {p : Placeholder} (hsub : ∀ a ∈ facts, a ∈ more) :
    p.statusOf facts v r ≤ p.statusOf more v r := by
  cases h : p.statusOf facts v r with
  | valid =>
    have hadmits : p.source.Admits more v := (statusOf_eq_valid_iff.1 h).mono hsub
    rw [statusOf_eq_valid_iff.2 hadmits]
    exact Status.le_refl _
  | incomplete =>
    obtain ⟨rfl, _, _, c, hc, hpre⟩ := statusOf_eq_incomplete h
    exact Status.incomplete_le (statusOf_ne_invalid (candidatesIn_mono hsub hc) hpre)
  | invalid => exact Status.invalid_le _

theorem slots_eq_nil_of_after {m : SlotMatch} {slots : List SlotMatch}
    (hend : (m :: slots).Pairwise fun m _ => m.endsInput = false) (h : m.after = []) :
    slots = [] := by
  cases slots with
  | nil => rfl
  | cons n slots =>
    have hm := (List.pairwise_cons.1 hend).1 n List.mem_cons_self
    rw [SlotMatch.endsInput, h] at hm
    cases hm

theorem Scan.status_ne_invalid_of_no_slots (hslots : scan.slots = []) (ht : scan.tailFits = true) :
    scan.status facts ≠ .invalid := by
  rw [status_of_no_slots hslots, if_pos ht]
  split <;> simp

/-- More facts do not lower the status of a scan in which only the last value ends the input. The
induction is on the values: the ones in front stay valid, and behind an incomplete one there is
none that could be found invalid when it becomes valid. -/
theorem Scan.status_mono (hsub : ∀ a ∈ facts, a ∈ more)
    (hend : scan.slots.Pairwise fun m _ => m.endsInput = false) :
    scan.status facts ≤ scan.status more := by
  cases ht : scan.tailFits with
  | false =>
    rw [status_of_tail ht]
    exact Status.invalid_le _
  | true =>
    induction hslots : scan.slots generalizing scan with
    | nil =>
      rw [status_of_no_slots hslots, status_of_no_slots hslots]
      exact Status.le_refl _
    | cons m slots ih =>
      rw [hslots] at hend
      have hrise : m.placeholder.statusOf facts m.value m.after ≤
          m.placeholder.statusOf more m.value m.after := statusOf_mono hsub
      rw [status_cons hslots ht, status_cons hslots ht]
      cases hm : m.placeholder.statusOf facts m.value m.after with
      | invalid => exact Status.invalid_le _
      | valid =>
        have hm' : m.placeholder.statusOf more m.value m.after = .valid :=
          statusOf_eq_valid_iff.2 ((statusOf_eq_valid_iff.1 hm).mono hsub)
        rw [hm']
        exact ih (List.pairwise_cons.1 hend).2 ht rfl
      | incomplete =>
        have hlast : slots = [] := slots_eq_nil_of_after hend (statusOf_eq_incomplete hm).1
        have hne : m.placeholder.statusOf more m.value m.after ≠ .invalid :=
          Status.ne_invalid_of_le hrise (by rw [hm]; decide)
        refine Status.incomplete_le ?_
        cases hm' : m.placeholder.statusOf more m.value m.after with
        | valid => exact status_ne_invalid_of_no_slots hlast ht
        | incomplete => simp
        | invalid => exact absurd hm' hne

/-- With more facts the status is no lower, no suggestion is lost, and the prompt for input that is
not invalid stays as it is. -/
theorem Template.answers_mono {σ τ : Type} [FactPool σ] [FactPool τ] (t : Template) {pool : σ}
    {larger : τ} (hsub : ∀ a ∈ FactPool.facts pool, a ∈ FactPool.facts larger) (input : Text) :
    t.status pool input ≤ t.status larger input ∧
    (∀ item ∈ t.suggest pool input, item ∈ t.suggest larger input) ∧
    (t.status pool input ≠ .invalid →
      t.status larger input ≠ .invalid ∧ t.prompt larger input = t.prompt pool input) := by
  have hle : t.status pool input ≤ t.status larger input :=
    Scan.status_mono hsub (scan_slots_endsInput t input)
  refine ⟨hle, ?_, ?_⟩
  · intro item hitem
    obtain ⟨hs, target, htarget, v, hv, rfl⟩ := mem_suggest_iff.1 hitem
    exact mem_suggest_iff.2 ⟨Status.ne_invalid_of_le hle hs, target, htarget, v,
      candidatesIn_mono hsub hv, rfl⟩
  · intro hs
    have hs' := Status.ne_invalid_of_le hle hs
    exact ⟨hs', by rw [prompt, prompt, if_neg hs, if_neg hs']⟩

/-- The nodes as a list in no order, with one repeated, and a fact about something else. -/
def scatteredNodes : List Atom :=
  [⟨"node".toList, ["beta".toList], .refl true, .refl true⟩,
    ⟨"color".toList, ["red".toList], .refl true, .refl true⟩,
    ⟨"node".toList, ["alps".toList], .refl true, .refl true⟩,
    ⟨"node".toList, ["alpha".toList], .refl true, .refl true⟩,
    ⟨"node".toList, ["alps".toList], .refl true, .refl true⟩]

/-- One node more, with which two others begin. -/
def moreNodes : List Atom := ⟨"node".toList, ["al".toList], .refl true, .refl true⟩ :: scatteredNodes

/-- A value that only began two nodes is a node itself in the larger pool; what it began is still
suggested, and the prompt is the same. -/
theorem Template.nodeEdge_answers_mono :
    nodeEdge.status nodes "alps -> al".toList = .incomplete ∧
    nodeEdge.status moreNodes "alps -> al".toList = .valid ∧
    "alps -> alpha".toList ∈ nodeEdge.suggest moreNodes "alps -> al".toList ∧
    nodeEdge.prompt moreNodes "alps -> al".toList = nodeEdge.prompt nodes "alps -> al".toList := by
  have hlist : ∀ a ∈ (FactPool.facts nodes).toList, a ∈ (FactPool.facts moreNodes).toList := by
    decide
  have hstatus : nodeEdge.status nodes "alps -> al".toList = .incomplete := by decide
  obtain ⟨_, hitems, hprompt⟩ :=
    answers_mono nodeEdge (fun a ha => hlist a ha) "alps -> al".toList
  exact ⟨hstatus, by decide, hitems _ (by decide), (hprompt (by rw [hstatus]; decide)).2⟩

/-! ## Facts that count -/

theorem Scan.status_congr_facts (h : ∀ m ∈ scan.slots, m.status facts = m.status more) :
    scan.status facts = scan.status more := by
  have hmap : scan.constrained.map (·.status facts) = scan.constrained.map (·.status more) :=
    List.map_congr_left fun m hm => h m (List.mem_filter.1 hm).1
  simp only [status, hmap]

theorem Scan.suggestions_congr_facts (hstatus : scan.status facts = scan.status more)
    (h : ∀ target, scan.target? = some target →
      candidatesIn facts target.placeholder.source target.typed =
        candidatesIn more target.placeholder.source target.typed) :
    scan.suggestions facts = scan.suggestions more := by
  rw [suggestions, suggestions, hstatus]
  cases htarget : scan.target? with
  | none => rfl
  | some target => simp only [h target htarget]

namespace Template

/-- Some slot takes its values from facts like this one. -/
def drawsFrom (t : Template) (a : Atom) : Bool := t.placeholders.any (·.source.drawsFrom a)

theorem drawsFrom_of_mem {t : Template} {p : Placeholder} {a : Atom} (hp : p ∈ t.placeholders)
    (h : p.source.drawsFrom a = true) : t.drawsFrom a = true :=
  List.any_eq_true.2 ⟨p, hp, h⟩

theorem drawsFrom_eq_false {t : Template}
    (h : ∀ p ∈ t.placeholders, p.source.isAny = true ∨ ∃ type, p.source = .builtin type) (a : Atom) :
    t.drawsFrom a = false := by
  rw [drawsFrom, List.any_eq_false]
  intro p hp
  rcases h p hp with hany | ⟨type, htype⟩
  · cases hsource : p.source with
    | any => simp [Source.drawsFrom]
    | builtin type => simp [Source.drawsFrom]
    | argument predicate index => rw [hsource] at hany; cases hany
  · rw [htype]
    simp [Source.drawsFrom]

theorem mem_placeholders {t : Template} {p : Placeholder} (h : .slot p ∈ t.parts) :
    p ∈ t.placeholders :=
  List.mem_filterMap.2 ⟨.slot p, h, rfl⟩

theorem placeholder_of_target? {t : Template} {input : Text} {target : Target}
    (h : (t.scan input).target? = some target) : target.placeholder ∈ t.placeholders := by
  have hopen : ∀ part ∈ (t.scan input).openParts, part ∈ t.parts :=
    fun part hpart => List.mem_of_mem_drop hpart
  unfold Scan.target? at h
  split at h
  · rename_i m hm
    cases h
    exact placeholder_of_mem_slots (List.mem_of_getLast? (Option.eq_some_of_filter_eq_some hm))
  · split at h
    · rename_i hparts
      cases h
      exact mem_placeholders (hopen _ (by simp [hparts]))
    · rename_i hparts
      cases h
      exact mem_placeholders (hopen _ (by simp [hparts]))
    · cases h

/-- Two pools are answered alike: for every input the status, the suggestions in their order, what is
left of them and the prompt are the same. -/
structure SameAnswers {σ τ : Type} [FactPool σ] [FactPool τ] (t : Template) (pool : σ)
    (other : τ) : Prop where
  status : ∀ input, t.status pool input = t.status other input
  suggest : ∀ input, t.suggest pool input = t.suggest other input
  suggestFor : ∀ excluded input,
    t.suggestFor pool excluded input = t.suggestFor other excluded input
  prompt : ∀ input, t.prompt pool input = t.prompt other input

variable {σ τ : Type} [FactPool σ] [FactPool τ]

/-- The candidates of a slot are the same in pools with the same facts to draw from: these stand in
the same order in both, since a set lists its members in order. -/
theorem candidatesIn_eq_of_drawsFrom {t : Template} {pool : σ} {other : τ}
    (h : ∀ a, t.drawsFrom a = true → (a ∈ FactPool.facts pool ↔ a ∈ FactPool.facts other))
    {p : Placeholder} (hp : p ∈ t.placeholders) (typed : Text) :
    candidatesIn (FactPool.facts pool).toList p.source typed =
      candidatesIn (FactPool.facts other).toList p.source typed := by
  refine candidatesIn_congr (AtomSet.filter_toList_congr ?_) typed
  intro a ha
  exact h a (drawsFrom_of_mem hp ha)

theorem sameAnswers_of_drawsFrom {t : Template} {pool : σ} {other : τ}
    (h : ∀ a, t.drawsFrom a = true → (a ∈ FactPool.facts pool ↔ a ∈ FactPool.facts other)) :
    t.SameAnswers pool other := by
  have hstatus : ∀ input, t.status pool input = t.status other input := by
    intro input
    refine Scan.status_congr_facts ?_
    intro m hm
    simp only [SlotMatch.status,
      candidatesIn_eq_of_drawsFrom h (placeholder_of_mem_slots hm) m.value]
  have hsuggest : ∀ input, t.suggest pool input = t.suggest other input := by
    intro input
    refine Scan.suggestions_congr_facts (hstatus input) ?_
    intro target htarget
    exact candidatesIn_eq_of_drawsFrom h (placeholder_of_target? htarget) target.typed
  refine ⟨hstatus, hsuggest, ?_, ?_⟩
  · intro excluded input
    rw [suggestFor, suggestFor, hsuggest]
  · intro input
    rw [prompt, prompt, hstatus]

/-- Only the facts that a slot draws from count. Pools of any kind that hold the same of these are
answered alike, lists of facts if they have the same of these as members, in whatever order and
however often. A template that draws from no facts is answered alike for all pools. -/
theorem sameAnswers (t : Template) :
    (∀ (pool : σ) (other : τ),
      (∀ a, t.drawsFrom a = true → (a ∈ FactPool.facts pool ↔ a ∈ FactPool.facts other)) →
      t.SameAnswers pool other) ∧
    (∀ facts others : List Atom,
      (∀ a, t.drawsFrom a = true → (a ∈ facts ↔ a ∈ others)) → t.SameAnswers facts others) ∧
    ((∀ p ∈ t.placeholders, p.source.isAny = true ∨ ∃ type, p.source = .builtin type) →
      ∀ (pool : σ) (other : τ), t.SameAnswers pool other) := by
  refine ⟨fun pool other h => sameAnswers_of_drawsFrom h, ?_, ?_⟩
  · intro facts others h
    refine sameAnswers_of_drawsFrom ?_
    intro a ha
    have hfacts : a ∈ AtomSet.ofList facts ↔ a ∈ AtomSet.ofList others := by
      rw [AtomSet.mem_ofList, AtomSet.mem_ofList]
      exact h a ha
    exact hfacts
  · intro hsources pool other
    refine sameAnswers_of_drawsFrom ?_
    intro a ha
    rw [drawsFrom_eq_false hsources] at ha
    cases ha

/-- `::a: ::n`, a value and its number, both without facts to draw from. -/
def score : Template :=
  ⟨[.slot ⟨['a'], ['a'], .any⟩, .fixed ": ".toList, .slot ⟨['n'], ['n'], .builtin "int".toList⟩]⟩

/-- Nodes that are scattered over a list, between facts about something else, are suggested in the
order in which a set lists them. A score is answered without any fact. -/
theorem nodeEdge_sameAnswers :
    nodeEdge.suggest scatteredNodes "al".toList =
      ["alpha -> <to>".toList, "alps -> <to>".toList] ∧
    nodeEdge.status scatteredNodes "alps -> alp".toList = .incomplete ∧
    score.status scatteredNodes "x: 12".toList = .valid := by
  have hfew : ∀ a ∈ (FactPool.facts nodes).toList, nodeEdge.drawsFrom a = true →
      a ∈ (FactPool.facts scatteredNodes).toList := by decide
  have hmany : ∀ a ∈ (FactPool.facts scatteredNodes).toList, nodeEdge.drawsFrom a = true →
      a ∈ (FactPool.facts nodes).toList := by decide
  have hnodes : nodeEdge.SameAnswers nodes scatteredNodes :=
    (sameAnswers nodeEdge).1 nodes scatteredNodes fun a ha =>
      ⟨fun h => hfew a h ha, fun h => hmany a h ha⟩
  have hsources : ∀ p ∈ score.placeholders, p.source = .any ∨ p.source = .builtin "int".toList := by
    decide
  have hscore : score.SameAnswers scatteredNodes AtomSet.empty := by
    refine (sameAnswers score).2.2 ?_ scatteredNodes AtomSet.empty
    intro p hp
    rcases hsources p hp with hany | hint
    · exact .inl (by rw [hany]; rfl)
    · exact .inr ⟨_, hint⟩
  rw [← hnodes.suggest, ← hnodes.status, hscore.status]
  exact ⟨by decide, by decide, by decide⟩

end Template
end FactForm
