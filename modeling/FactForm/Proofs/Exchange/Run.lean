import FactForm.Proofs.Exchange.Calls

/-!
# FactForm.Proofs.Exchange.Run

The members of an owner over whole runs of actions.

* `Member.Becomes`, `Exchange.getElem?_step` — what one action does to one member.
* `Exchange.state_of_failed` — an action that fails changes no member.
* `Member.From` — what holds of a member, by its origin and the sets that it received.
* `Exchange.isSound_step`, `isSound_run` — every action keeps it, and so every run.
* `exchange_run` — what holds of lists, slots and conditions after any run.
-/

namespace FactForm

/-! ## One action -/

/-- What one action makes of a member that received a set in it, or none. -/
inductive Member.Becomes : Member → Option AtomSet → Member → Prop where
  | kept (m : Member) : Becomes m none m
  | served (m : Member) (call : Member.Call) : Becomes m none (m.serve call).2
  | received (m : Member) (atoms : AtomSet) : Becomes m (some atoms) (m.receive atoms)

namespace Exchange

/-- What the action makes. A pool that is gathered counts as an empty one with atoms put in. -/
def Action.origin? : Action → Option Origin
  | .make origin => some origin
  | .gather _ => some (.pool [])
  | _ => none

/-- The set that the member at a place receives in an action. -/
def delivered (members : List Member) (place : Nat) : Action → Option AtomSet
  | .distribute supply receivers =>
    if place < members.length ∧ place ∈ receivers then supply.atoms? members else none
  | _ => none

variable {members : List Member} {m : Member} {i : Nat}

theorem step_of_origin_none (members : List Member) {action : Action} (h : action.origin? = none) :
    (step members action).2.length = members.length := by
  cases action with
  | make origin => cases h
  | gather suppliers => cases h
  | call place call =>
    rw [step]
    split <;> simp
  | distribute supply receivers =>
    rw [step]
    split <;> simp

theorem getElem?_step (h : members[i]? = some m) (action : Action) :
    ∃ m', (step members action).2[i]? = some m' ∧ m.Becomes (delivered members i action) m' := by
  have hi : i < members.length := (List.getElem?_eq_some_iff.1 h).1
  cases action with
  | make origin => exact ⟨m, by rw [step, List.getElem?_append_left hi, h], .kept m⟩
  | gather suppliers => exact ⟨m, by rw [step, List.getElem?_append_left hi, h], .kept m⟩
  | call place call =>
    cases hplace : members[place]? with
    | none => exact ⟨m, by simp [step, hplace, h], .kept m⟩
    | some n =>
      by_cases hsame : place = i
      · subst hsame
        obtain rfl : n = m := Option.some.inj (hplace.symm.trans h)
        refine ⟨(n.serve call).2, ?_, .served n call⟩
        simp only [step, h]
        exact List.getElem?_set_self hi
      · exact ⟨m, by simp [step, hplace, hsame, h], .kept m⟩
  | distribute supply receivers =>
    cases hsupply : supply.atoms? members with
    | none => exact ⟨m, by simp [step, hsupply, h], by simpa [delivered, hsupply] using .kept m⟩
    | some atoms =>
      by_cases hmem : i ∈ receivers
      · refine ⟨m.receive atoms, by simp [step, hsupply, h, hmem], ?_⟩
        simpa [delivered, hsupply, hi, hmem] using .received m atoms
      · refine ⟨m, by simp [step, hsupply, h, hmem], ?_⟩
        simpa [delivered, hmem] using .kept m

/-- The receivers become what `distribute` makes of them. -/
theorem receivers_distribute {supply : Supply} {atoms : AtomSet} (receivers : List Nat)
    (h : supply.atoms? members = some atoms) :
    receivers.filterMap ((step members (.distribute supply receivers)).2[·]?) =
      FactForm.distribute atoms (receivers.filterMap (members[·]?)) := by
  rw [FactForm.distribute, List.map_filterMap]
  refine List.filterMap_congr ?_
  intro i hi
  simp [step, h, hi]

theorem state_of_failed {action : Action} {err : RepresentationError}
    (h : (step members action).1 = .failed err) : (step members action).2 = members := by
  cases action with
  | make origin => cases h
  | gather suppliers => cases h
  | call place call =>
    cases hplace : members[place]? with
    | none => simp [step, hplace]
    | some m =>
      simp only [step, hplace] at h ⊢
      rw [Member.state_of_failed h]
      obtain ⟨hlt, rfl⟩ := List.getElem?_eq_some_iff.1 hplace
      exact List.set_getElem_self hlt
  | distribute supply receivers =>
    rw [step] at h
    split at h <;> cases h

end Exchange

/-! ## Whole runs -/

open Exchange

/-- What holds of a member, by its origin and the sets that it received. -/
inductive Member.From : Origin → List AtomSet → Member → Prop where
  | pool {atoms : List Atom} {sets : List AtomSet} (held : AtomSet) :
      From (.pool atoms) sets (.pool held)
  | list {c : Codec} {sets : List AtomSet} {l : EntityList} (sound : EntityList.IsSound c l) :
      From (.list c) sets (.list l)
  | slot {c : Codec} {sets : List AtomSet} {s : ValueSlot} (sound : ValueSlot.IsSound c s) :
      From (.slot c) sets (.slot s)
  | condition (text : Text) (sets : List AtomSet) :
      From (.condition text) sets (.condition ((Condition.ofText text).receiveAll sets))

namespace Member.From

variable {o : Origin} {sets : List AtomSet} {m : Member}

theorem origin (o : Origin) : From o [] o.member := by
  cases o with
  | pool atoms => exact .pool _
  | list c => exact .list (EntityList.isSound_empty c)
  | slot c => exact .slot (ValueSlot.isSound_empty c)
  | condition text => exact .condition text []

theorem serve (h : From o sets m) (call : Member.Call) : From o sets (m.serve call).2 := by
  cases h with
  | pool held => cases call <;> exact .pool _
  | list sound =>
    cases call with
    | list call => exact .list (EntityList.isSound_serve sound call)
    | pool call => exact .list sound
    | slot call => exact .list sound
  | slot sound =>
    cases call with
    | slot call => exact .slot (ValueSlot.isSound_serve sound call)
    | pool call => exact .slot sound
    | list call => exact .slot sound
  | condition text => exact .condition text sets

theorem receive (h : From o sets m) (atoms : AtomSet) :
    From o (sets ++ [atoms]) (m.receive atoms) := by
  cases h with
  | pool held => exact .pool _
  | list sound => exact .list (EntityList.isSound_receive sound atoms)
  | slot sound => exact .slot (ValueSlot.isSound_receive sound atoms)
  | condition text =>
    rw [Member.receive, ← Condition.receiveAll_snoc]
    exact .condition text (sets ++ [atoms])

theorem becomes {m' : Member} {set : Option AtomSet} (h : From o sets m)
    (hm : m.Becomes set m') : From o (sets ++ set.toList) m' := by
  cases hm with
  | kept => simpa using h
  | served call => simpa using h.serve call
  | received atoms => exact h.receive atoms

end Member.From

namespace Exchange

def origins (actions : List Action) : List Origin := actions.filterMap Action.origin?

/-- The sets that the member at a place receives in a run, one after the other. -/
def received (place : Nat) : List Member → List Action → List AtomSet
  | _, [] => []
  | members, action :: rest =>
    (delivered members place action).toList ++ received place (step members action).2 rest

/-- All members are what their origins and the sets that they received make them. -/
structure IsSound (origins : List Origin) (sets : Nat → List AtomSet) (members : List Member) :
    Prop where
  length : members.length = origins.length
  member : ∀ i o, origins[i]? = some o → ∃ m, members[i]? = some m ∧ Member.From o (sets i) m
  unmade : ∀ i, members.length ≤ i → sets i = []

variable {os : List Origin} {sets : Nat → List AtomSet} {members : List Member}

theorem delivered_of_le {i : Nat} (h : members.length ≤ i) (action : Action) :
    delivered members i action = none := by
  cases action with
  | distribute supply receivers => simp [delivered, Nat.not_lt.2 h]
  | make origin => rfl
  | call place call => rfl
  | gather suppliers => rfl

theorem step_of_origin (members : List Member) {action : Action} {o : Origin}
    (h : action.origin? = some o) :
    ∃ m, (step members action).2 = members ++ [m] ∧ Member.From o [] m := by
  cases action with
  | make origin =>
    cases h
    exact ⟨_, rfl, .origin o⟩
  | gather suppliers =>
    cases h
    exact ⟨_, rfl, .pool _⟩
  | call place call => cases h
  | distribute supply receivers => cases h

theorem isSound_step (h : IsSound os sets members) (action : Action) :
    IsSound (os ++ action.origin?.toList)
      (fun i => sets i ++ (delivered members i action).toList) (step members action).2 := by
  have hold : ∀ i o, os[i]? = some o → ∃ m', (step members action).2[i]? = some m' ∧
      Member.From o (sets i ++ (delivered members i action).toList) m' := by
    intro i o ho
    obtain ⟨m, hm, hfrom⟩ := h.member i o ho
    obtain ⟨m', hm', hbecomes⟩ := getElem?_step hm action
    exact ⟨m', hm', hfrom.becomes hbecomes⟩
  have hunmade : ∀ i, members.length ≤ i → sets i ++ (delivered members i action).toList = [] := by
    intro i hi
    rw [h.unmade i hi, delivered_of_le hi]
    rfl
  cases horigin : action.origin? with
  | none =>
    have hlength := step_of_origin_none members horigin
    refine ⟨?_, ?_, ?_⟩
    · simp [hlength, h.length]
    · intro i o ho
      exact hold i o (by simpa using ho)
    · intro i hi
      exact hunmade i (by omega)
  | some new =>
    obtain ⟨m, hstep, hfrom⟩ := step_of_origin members horigin
    refine ⟨?_, ?_, ?_⟩
    · simp [hstep, h.length]
    · intro i o ho
      rcases Nat.lt_or_ge i os.length with hi | hi
      · rw [List.getElem?_append_left hi] at ho
        exact hold i o ho
      · rw [List.getElem?_append_right hi, Option.toList_some, List.getElem?_singleton] at ho
        split at ho
        · cases ho
          have hlast : i = members.length := by rw [h.length]; omega
          rw [hunmade i (by omega), hstep, hlast]
          exact ⟨m, by simp, hfrom⟩
        · cases ho
    · intro i hi
      exact hunmade i (by simp [hstep] at hi; omega)

theorem isSound_run (h : IsSound os sets members) (actions : List Action) :
    IsSound (os ++ origins actions) (fun i => sets i ++ received i members actions)
      (run members actions) := by
  induction actions generalizing os sets members with
  | nil => simpa [origins, received, run] using h
  | cons action actions ih =>
    have horigins : origins (action :: actions) = action.origin?.toList ++ origins actions := by
      cases hnew : action.origin? <;> simp [origins, hnew]
    have hrest := ih (isSound_step h action)
    simp only [List.append_assoc] at hrest
    rw [horigins]
    exact hrest

theorem isSound_nil : IsSound [] (fun _ => []) [] := ⟨rfl, by simp, by simp⟩

theorem length_run (actions : List Action) :
    (run [] actions).length = (origins actions).length := by
  simpa using (isSound_run isSound_nil actions).length

theorem from_run {actions : List Action} {i : Nat} {o : Origin}
    (h : (origins actions)[i]? = some o) :
    ∃ m, (run [] actions)[i]? = some m ∧ Member.From o (received i [] actions) m := by
  simpa using (isSound_run isSound_nil actions).member i o (by simpa using h)

/-! ## Calls of one member -/

variable {i : Nat} {m : Member} {l : EntityList} {s : ValueSlot} {text : Text} {e : Entity}
  {err : RepresentationError}

theorem step_call (h : members[i]? = some m) (call : Member.Call) :
    step members (.call i call) = ((m.serve call).1, members.set i (m.serve call).2) := by
  simp only [step, h]

theorem step_add_of_error (h : members[i]? = some (.list l))
    (hread : l.codec.fromDisplayText text = .error err) :
    step members (.call i (.list (.add text))) = (.failed err, members) := by
  have hreply : (step members (.call i (.list (.add text)))).1 = .failed err := by
    rw [step_call h, Member.serve, EntityList.serve_add_of_error hread]
  exact Prod.ext hreply (state_of_failed hreply)

theorem step_set_of_error (h : members[i]? = some (.slot s))
    (hread : s.codec.fromDisplayText text = .error err) :
    step members (.call i (.slot (.set text))) = (.failed err, members) := by
  have hreply : (step members (.call i (.slot (.set text)))).1 = .failed err := by
    rw [step_call h, Member.serve, ValueSlot.serve_set_of_error hread]
  exact Prod.ext hreply (state_of_failed hreply)

theorem step_set (h : members[i]? = some (.slot s)) (hread : s.codec.fromDisplayText text = .ok e) :
    step members (.call i (.slot (.set text))) =
      (.done, members.set i (.slot { s with value := some e })) := by
  rw [step_call h, Member.serve, ValueSlot.serve_set_of_ok hread]

theorem step_add (h : members[i]? = some (.list l)) (hread : l.codec.fromDisplayText text = .ok e) :
    ∃ isNew l', step members (.call i (.list (.add text))) =
        (.answer isNew, members.set i (.list l')) ∧
      (isNew = false ↔ e ∈ l.entities) ∧
      l'.entities = if isNew then l.entities ++ [e] else l.entities := by
  obtain ⟨isNew, l', hserve, hstate⟩ := EntityList.serve_add hread
  exact ⟨isNew, l', by rw [step_call h, Member.serve, hserve], hstate⟩

theorem step_remove (h : members[i]? = some (.list l)) (e : Entity) :
    ∃ found l', step members (.call i (.list (.remove e))) =
        (.answer found, members.set i (.list l')) ∧
      (found = true ↔ e ∈ l.entities) ∧ l'.entities.Sublist l.entities ∧
      ∀ x, x ∈ l'.entities ↔ x ∈ l.entities ∧ x ≠ e := by
  obtain ⟨found, l', hserve, hstate⟩ := EntityList.serve_remove l e
  exact ⟨found, l', by rw [step_call h, Member.serve, hserve], hstate⟩

end Exchange

/-- What holds of lists, slots and conditions after any run of actions. -/
theorem exchange_run (actions : List Action) :
    ∃ members, Exchange.run [] actions = members ∧ members.length = (origins actions).length ∧
    (∀ action err, (step members action).1 = .failed err → (step members action).2 = members) ∧
    (∀ i c, (origins actions)[i]? = some (.list c) → ∃ l, members[i]? = some (.list l) ∧
      l.codec = c ∧ l.entities.Nodup ∧ (∀ e ∈ l.entities, e.MadeBy c) ∧
      (∀ text err, c.fromDisplayText text = .error err →
        step members (.call i (.list (.add text))) = (.failed err, members)) ∧
      (∀ text e, c.fromDisplayText text = .ok e →
        ∃ isNew l', step members (.call i (.list (.add text))) =
            (.answer isNew, members.set i (.list l')) ∧
          (isNew = false ↔ e ∈ l.entities) ∧
          l'.entities = if isNew then l.entities ++ [e] else l.entities) ∧
      ∀ e, ∃ found l', step members (.call i (.list (.remove e))) =
          (.answer found, members.set i (.list l')) ∧
        (found = true ↔ e ∈ l.entities) ∧ l'.entities.Sublist l.entities ∧
        ∀ x, x ∈ l'.entities ↔ x ∈ l.entities ∧ x ≠ e) ∧
    (∀ i c, (origins actions)[i]? = some (.slot c) → ∃ s, members[i]? = some (.slot s) ∧
      s.codec = c ∧ (∀ e ∈ s.value, e.MadeBy c) ∧
      (∀ text err, c.fromDisplayText text = .error err →
        step members (.call i (.slot (.set text))) = (.failed err, members)) ∧
      ∀ text e, c.fromDisplayText text = .ok e →
        ∃ s', step members (.call i (.slot (.set text))) = (.done, members.set i (.slot s')) ∧
          s'.value = some e) ∧
    ∀ i text, (origins actions)[i]? = some (.condition text) →
      ∃ g, members[i]? = some (.condition g) ∧
        (∀ a, g.atom = some a ↔ Atom.parse (Text.trim text) = .ok a) ∧
        (g.atom = none → g.fulfilled = true) ∧
        ∀ a, g.atom = some a →
          (g.fulfilled = true ↔ ∃ atoms ∈ (received i [] actions).getLast?, a ∈ atoms) := by
  refine ⟨_, rfl, length_run actions, fun _ _ => state_of_failed, ?lists, ?slots, ?conditions⟩
  case lists =>
    intro i c h
    obtain ⟨_, hm, hfrom⟩ := from_run h
    cases hfrom with
    | @list _ _ l sound =>
      obtain rfl : l.codec = c := sound.codec
      exact ⟨l, hm, rfl, sound.nodup, sound.made, fun _ _ => step_add_of_error hm,
        fun _ _ => step_add hm, step_remove hm⟩
  case slots =>
    intro i c h
    obtain ⟨_, hm, hfrom⟩ := from_run h
    cases hfrom with
    | @slot _ _ s sound =>
      obtain rfl : s.codec = c := sound.codec
      exact ⟨s, hm, rfl, sound.made, fun _ _ => step_set_of_error hm,
        fun _ _ hread => ⟨_, step_set hm hread, rfl⟩⟩
  case conditions =>
    intro i text h
    obtain ⟨_, hm, hfrom⟩ := from_run h
    cases hfrom with
    | condition _ sets =>
      refine ⟨_, hm, ?_, ?_, ?_⟩
      all_goals rw [Condition.atom_receiveAll]
      · intro a
        exact Condition.atom_ofText_iff
      · intro hnone
        exact Condition.fulfilled_of_atom_none hnone _
      · intro a ha
        exact Condition.fulfilled_iff ha _

/-- An entity of `Codec.edge`, whose atom template has the slots the other way round. -/
def arrow : Entity where
  values := .ofList [("from".toList, ['a']), ("to".toList, ['b'])]
  display := "a -> b".toList
  atom := "edge(b,a)".toList

/-- A list and a slot are filled in, the list once in vain. Their atoms are gathered in a pool, and the
list is cleared before it receives them again with the slot and a condition. -/
def arrowActions : List Action :=
  [.make (.list Codec.edge), .make (.slot Codec.edge), .make (.condition " edge(b,a)".toList),
    .call 0 (.list (.add arrow.display)), .call 0 (.list (.add "a ->".toList)),
    .call 1 (.slot (.set arrow.display)), .gather [0, 1], .call 0 (.list .clear),
    .distribute (.pool 3) [0, 1, 2]]

/-- Nothing was lost, the list does not take the entity again, and the condition holds. -/
theorem arrow_exchange_run :
    ∃ members, Exchange.run [] arrowActions = members ∧
      members[1]? = some (.slot ⟨Codec.edge, some arrow⟩) ∧
      (∃ l', step members (.call 0 (.list (.add arrow.display))) =
        (.answer false, members.set 0 (.list l')) ∧ l'.entities = [arrow]) ∧
      ∃ g, members[2]? = some (.condition g) ∧ g.fulfilled = true := by
  obtain ⟨members, hrun, -, -, hlists, -, hconditions⟩ := exchange_run arrowActions
  have hread : Codec.edge.fromDisplayText arrow.display = .ok arrow := by rfl
  obtain ⟨l, hl, -, -, -, -, hadd, -⟩ := hlists 0 Codec.edge rfl
  obtain ⟨isNew, l', hstep, hnew, hentities⟩ := hadd _ _ hread
  have hlist : members[0]? = some (.list ⟨Codec.edge, [arrow]⟩) := by
    rw [← hrun]
    decide +kernel
  obtain rfl : l = ⟨Codec.edge, [arrow]⟩ := by simpa using hl.symm.trans hlist
  have hfalse : isNew = false := hnew.2 (by simp)
  obtain ⟨g, hg, hatom, -, hfulfilled⟩ := hconditions 2 _ rfl
  refine ⟨members, hrun, ?_, ⟨l', ?_, ?_⟩, g, hg, ?_⟩
  · rw [← hrun]
    decide +kernel
  · rw [hstep, hfalse]
  · simpa [hfalse] using hentities
  · obtain ⟨a, ha, hparse⟩ : ∃ a ∈ atomsOf [arrow],
        Atom.parse (Text.trim " edge(b,a)".toList) = .ok a := by decide +kernel
    have hreceived : received 2 [] arrowActions = [.ofList (atomsOf [arrow])] := by decide +kernel
    rw [hfulfilled a ((hatom a).2 hparse), hreceived]
    exact ⟨_, rfl, AtomSet.mem_ofList.2 ha⟩

end FactForm
