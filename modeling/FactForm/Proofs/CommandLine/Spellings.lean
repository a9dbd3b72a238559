import FactForm.CommandLine
import FactForm.Proofs.Kind.Compile

/-!
# FactForm.Proofs.CommandLine.Spellings

The two spellings of an option with its value: in two arguments, or in one with an equals sign. The
value in one argument loses the flag with its equals sign as often as this stands at its front, so the
spellings agree for the values that do not begin with it.

* `Takes`, `TakesAll` — the options at the front of a list of arguments are taken, one or all.
* `readOptions_takesAll` — after them, the loop goes on with the rest.
* `exists_copies` — what is left of a value after the flag is taken from its front.
* `ActsAs`, `SpellingsAgree` — both spellings have the same effect wherever options are read.
* `spellings_agree` — for which values they agree, and what a value is taken for otherwise.
-/

namespace FactForm
namespace CommandLine

/-- An option with its value, if it has one, is taken from the front of the arguments. -/
inductive Takes : Settings → List Text → Settings → Prop where
  | color {s : Settings} {arg : Text} {on : Bool} :
      Argument.classify arg = .color on → Takes s [arg] { s with color := on }
  | joined {s t : Settings} {arg value : Text} {o : ValueOption} :
      Argument.classify arg = .joined o value → o.apply s value = .ok t → Takes s [arg] t
  | separate {s t : Settings} {arg value : Text} {o : ValueOption} :
      Argument.classify arg = .option o → o.apply s value = .ok t → Takes s [arg, value] t

/-- Options are taken one after the other, up to a place where the next one may stand. -/
inductive TakesAll : Settings → List Text → Settings → Prop where
  | nil {s : Settings} : TakesAll s [] s
  | cons {s t u : Settings} {args rest : List Text} :
      Takes s args t → TakesAll t rest u → TakesAll s (args ++ rest) u

/-- Wherever options are read, the option in one argument with `value` has the effect of the option in
two arguments with `rest`: the outcome is the same, and both or none ask for standard input. -/
def ActsAs (o : ValueOption) (value rest : Text) : Prop :=
  ∀ color before s after, TakesAll (.initial color) before s →
    (∀ library stdin, execute library color (before ++ (o.joinedFlag ++ value) :: after) stdin =
      execute library color (before ++ o.flag :: rest :: after) stdin) ∧
    needsInput color (before ++ (o.joinedFlag ++ value) :: after) =
      needsInput color (before ++ o.flag :: rest :: after)

def SpellingsAgree (o : ValueOption) (value : Text) : Prop := ActsAs o value value

/-! ## The loop -/

theorem readOptions_takes {s t : Settings} {args : List Text} (h : Takes s args t)
    (rest : List Text) : readOptions s (args ++ rest) = readOptions t rest := by
  cases h with
  | color hclass => simp [readOptions, hclass]
  | joined hclass happly => simp [readOptions, hclass, happly]
  | separate hclass happly => simp [readOptions, hclass, happly]

theorem readOptions_takesAll {s t : Settings} {before : List Text} (h : TakesAll s before t)
    (rest : List Text) : readOptions s (before ++ rest) = readOptions t rest := by
  induction h with
  | nil => rfl
  | cons htakes _ ih => rw [List.append_assoc, readOptions_takes htakes, ih]

/-! ## Copies of the flag -/

theorem stripLead_append {lead : Text} (hlead : lead ≠ []) (s : Text) :
    stripLead lead (lead ++ s) = stripLead lead s := by
  have hafter : Text.after? lead (lead ++ s) = some s := Text.after?_eq_some_iff.2 rfl
  rw [stripLead]
  split
  · rename_i r hr
    rw [hafter] at hr
    simp at hr
    simp [hlead, hr]
  · rename_i hr
    simp [hafter] at hr

theorem stripLead_of_not_isPrefix {lead s : Text} (h : ¬ lead <+: s) : stripLead lead s = s := by
  rw [stripLead]
  split
  · rename_i r hr
    exact absurd ⟨r, (Text.after?_eq_some_iff.1 hr).symm⟩ h
  · rfl

/-- A value is copies of the flag and what is left of it, which does not begin with the flag. -/
theorem exists_copies {lead : Text} (hlead : lead ≠ []) (s : Text) :
    ∃ copies, s = (List.replicate copies lead).flatten ++ stripLead lead s ∧
      ¬ lead <+: stripLead lead s := by
  by_cases h : lead <+: s
  · obtain ⟨r, rfl⟩ := h
    have hshorter : r.length < (lead ++ r).length := by
      have := List.length_pos_iff.2 hlead
      simp
      omega
    obtain ⟨copies, hr, hrest⟩ := exists_copies hlead r
    refine ⟨copies + 1, ?_, ?_⟩
    · rw [stripLead_append hlead, List.replicate_succ, List.flatten_cons, List.append_assoc, ← hr]
    · rwa [stripLead_append hlead]
  · exact ⟨0, by simp [stripLead_of_not_isPrefix h], by rwa [stripLead_of_not_isPrefix h]⟩
termination_by s.length

/-! ## One option -/

theorem joinedFlag_ne_nil (o : ValueOption) : o.joinedFlag ≠ [] := by
  cases o <;> simp [ValueOption.joinedFlag]

theorem classify_flag (o : ValueOption) : Argument.classify o.flag = .option o := by
  cases o <;> rfl

theorem classify_joined {o : ValueOption} (ho : o ∈ ValueOption.joinable) (value : Text) :
    Argument.classify (o.joinedFlag ++ value) = .joined o (stripLead o.joinedFlag value) := by
  rw [← stripLead_append (joinedFlag_ne_nil o) value]
  cases o with
  | display => rfl
  | atom => rfl
  | attr => rfl
  | facts => simp [ValueOption.joinable] at ho
  | exclude => simp [ValueOption.joinable] at ho

theorem readOptions_separate (s : Settings) (o : ValueOption) (value : Text) (after : List Text) :
    readOptions s (o.flag :: value :: after) =
      match o.apply s value with
      | .ok t => readOptions t after
      | .error e => .error e := by
  cases happly : o.apply s value <;> simp [readOptions, classify_flag, happly]

theorem readOptions_joined {o : ValueOption} (ho : o ∈ ValueOption.joinable) (s : Settings)
    (value : Text) (after : List Text) :
    readOptions s ((o.joinedFlag ++ value) :: after) =
      readOptions s (o.flag :: stripLead o.joinedFlag value :: after) := by
  rw [readOptions_separate]
  cases happly : o.apply s (stripLead o.joinedFlag value) <;>
    simp [readOptions, classify_joined ho, happly]

theorem execute_congr {color : Bool} {args args' : List Text}
    (h : readOptions (.initial color) args = readOptions (.initial color) args') :
    (∀ library stdin, execute library color args stdin = execute library color args' stdin) ∧
      needsInput color args = needsInput color args' := by
  simp [execute, needsInput, h]

theorem actsAs_stripLead {o : ValueOption} (ho : o ∈ ValueOption.joinable) (value : Text) :
    ActsAs o value (stripLead o.joinedFlag value) := by
  intro color before s after hbefore
  refine execute_congr ?_
  rw [readOptions_takesAll hbefore, readOptions_joined ho, readOptions_takesAll hbefore]

/-! ## Values that begin with the flag -/

theorem eq_of_splitAt? {c : Char} {s front rest : Text} (h : splitAt? c s = some (front, rest)) :
    s = front ++ c :: rest := by
  unfold splitAt? at h
  split at h
  · cases h
  · rename_i d r hdrop
    simp only [Option.some.injEq, Prod.mk.injEq] at h
    obtain ⟨rfl, rfl⟩ := h
    have hd : d = c := by
      have hnot := List.head?_dropWhile_not (fun x => decide (x ≠ c)) s
      rw [hdrop] at hnot
      simpa using hnot
    calc
      s = s.takeWhile (· ≠ c) ++ s.dropWhile (· ≠ c) := List.takeWhile_append_dropWhile.symm
      _ = s.takeWhile (· ≠ c) ++ c :: r := by rw [hdrop, hd]

theorem eq_of_readAttribute {value : Text} {a : Attribute} (h : readAttribute value = .ok a) :
    ∃ rest, value = a.id ++ '=' :: rest := by
  unfold readAttribute at h
  split at h
  · cases h
  · cases h
  · rename_i id rest _ hsplit
    have hid : a.id = id := by
      split at h
      · cases h
        rfl
      · cases h
        rfl
    exact ⟨rest, hid ▸ eq_of_splitAt? hsplit⟩

theorem readAttribute_of_splitAt? {value id rest : Text} {c : Char}
    (h : splitAt? '=' value = some (c :: id, rest)) :
    ∃ a, readAttribute value = .ok a ∧ a.id = c :: id := by
  unfold readAttribute
  rw [h]
  dsimp only
  cases splitAt? ':' rest with
  | none => exact ⟨_, rfl, rfl⟩
  | some p => exact ⟨_, rfl, rfl⟩

theorem readAttribute_joined (r : Text) :
    ∃ a, readAttribute (ValueOption.attr.joinedFlag ++ r) = .ok a ∧ a.id = ValueOption.attr.flag :=
  readAttribute_of_splitAt? rfl

theorem apply_ne {o : ValueOption} (ho : o ∈ ValueOption.joinable) {value rest : Text}
    (hvalue : o.joinedFlag <+: value) (hrest : ¬ o.joinedFlag <+: rest) (s : Settings) :
    o.apply s value ≠ o.apply s rest := by
  have hne : value ≠ rest := fun h => hrest (h ▸ hvalue)
  cases o with
  | display => simp [ValueOption.apply, hne]
  | atom => simp [ValueOption.apply, hne]
  | attr =>
    obtain ⟨r, rfl⟩ := hvalue
    obtain ⟨a, ha, hid⟩ := readAttribute_joined r
    intro h
    cases hread : readAttribute rest with
    | error e => simp [ValueOption.apply, ha, hread] at h
    | ok b =>
      simp [ValueOption.apply, ha, hread] at h
      obtain ⟨behind, hbehind⟩ := eq_of_readAttribute hread
      rw [← h, hid] at hbehind
      refine hrest ⟨behind, ?_⟩
      rw [hbehind, ValueOption.joinedFlag]
      simp
  | facts => simp [ValueOption.joinable] at ho
  | exclude => simp [ValueOption.joinable] at ho

theorem readOptions_single (s : Settings) (o : ValueOption) (value : Text) :
    readOptions s [o.flag, value] = (o.apply s value).map .run := by
  rw [readOptions_separate]
  cases o.apply s value <;> simp [readOptions, Except.map]

theorem apply_eq_of_readOptions_single {s : Settings} {o : ValueOption} {value rest : Text}
    (h : readOptions s [o.flag, value] = readOptions s [o.flag, rest]) :
    o.apply s value = o.apply s rest := by
  rw [readOptions_single, readOptions_single] at h
  generalize o.apply s value = a at h ⊢
  generalize o.apply s rest = b at h ⊢
  cases a <;> cases b <;> simp [Except.map] at h <;> rw [h]

/-! ## Both spellings -/

/-- The spellings agree for every value that does not begin with the flag and an equals sign. For any
value, the option in one argument has the effect of the option in two arguments with the value without
its leading copies of the flag, and exactly for the values that have no such copy it is read the same. -/
theorem spellings_agree {o : ValueOption} (ho : o ∈ ValueOption.joinable) (value : Text) :
    (¬ o.joinedFlag <+: value → SpellingsAgree o value) ∧
    (∃ copies rest,
      value = (List.replicate copies o.joinedFlag).flatten ++ rest ∧ ¬ o.joinedFlag <+: rest ∧
        ActsAs o value rest) ∧
    ((∀ s after, readOptions s ((o.joinedFlag ++ value) :: after) =
        readOptions s (o.flag :: value :: after)) ↔
      ¬ o.joinedFlag <+: value) := by
  obtain ⟨copies, hcopies, hrest⟩ := exists_copies (joinedFlag_ne_nil o) value
  have hacts := actsAs_stripLead ho value
  refine ⟨?same, ⟨copies, stripLead o.joinedFlag value, hcopies, hrest, hacts⟩, ?read⟩
  case same =>
    intro h
    rwa [stripLead_of_not_isPrefix h] at hacts
  case read =>
    constructor
    · intro h hvalue
      have hread := h (.initial false) []
      rw [readOptions_joined ho] at hread
      exact apply_ne ho hvalue hrest _ (apply_eq_of_readOptions_single hread.symm)
    · intro h s after
      rw [readOptions_joined ho, stripLead_of_not_isPrefix h]

theorem spellings_agree_attribute :
    ¬ ValueOption.attr.joinedFlag <+: "n=count:#int".toList ∧
    (∀ library after stdin,
      execute library false
          ("--facts".toList :: "node(a).".toList :: "--attr=n=count:#int".toList :: after) stdin =
        execute library false
          ("--facts".toList :: "node(a).".toList :: "--attr".toList :: "n=count:#int".toList ::
            after) stdin) ∧
    ¬ ∀ s after, readOptions s ("--attr=--attr=n=count".toList :: after) =
      readOptions s ("--attr".toList :: "--attr=n=count".toList :: after) := by
  have hjoinable : ValueOption.attr ∈ ValueOption.joinable := by decide
  have hvalue : ¬ ValueOption.attr.joinedFlag <+: "n=count:#int".toList := by decide
  have hbefore : TakesAll (.initial false) ["--facts".toList, "node(a).".toList]
      { Settings.initial false with facts := "node(a).\n".toList } :=
    .cons (.separate (classify_flag .facts) rfl) .nil
  obtain ⟨hsame, -, -⟩ := spellings_agree hjoinable "n=count:#int".toList
  obtain ⟨-, -, hread⟩ := spellings_agree hjoinable "--attr=n=count".toList
  refine ⟨hvalue, ?_, ?_⟩
  · intro library after stdin
    exact (hsame hvalue false _ _ after hbefore).1 library stdin
  · intro h
    exact hread.1 h (by decide)

/-! ## A template that begins with the flag -/

namespace Mode

open Kind.Mode

def arguments : List Text :=
  ["--atom".toList, "mode(::m)".toList, "--attr".toList, "m=mode".toList, "--".toList,
    "--display=wide".toList]

/-- What is read from a display template in front of these arguments. -/
def settings (display : Text) : Settings :=
  { Settings.initial false with
    input := some "--display=wide".toList
    display := some display
    atom := some "mode(::m)".toList
    attributes := [mode] }

def full : Template := ⟨[.fixed "--display=".toList, .slot slot]⟩

theorem isCanonical_full : full.IsCanonical := by
  refine isCanonical_literal_cons.2 ⟨by simp, ?_, by simp [Part.segment], isCanonical_bare⟩
  intro id
  simp [hasMarker_cons_iff, not_hasMarker_nil, readMarker]

theorem execute_display {t : Template} (hcanonical : t.IsCanonical)
    (hslots : t.placeholders = [slot]) (hids : t.idSet = wrapped.idSet) (stdin : Option Text) :
    execute .unlimited false ("--display".toList :: t.written :: arguments) stdin =
      .success (report ⟨false⟩ ⟨⟨t, wrapped, hids⟩⟩ (AtomSet.ofList []) [] "--display=wide".toList) := by
  have hread : readOptions (.initial false) ("--display".toList :: t.written :: arguments) =
      .ok (.run (settings t.written)) := rfl
  have hdefinition : (settings t.written).definition =
      .ok (KindDefinition.ofCalls t.written wrapped.written [mode]) := rfl
  have hinput : (settings t.written).inputText stdin = .ok "--display=wide".toList := rfl
  have hfits := fits hcanonical hslots
  have hatom := fits isCanonical_wrapped rfl
  have hkind : Kind.compile .unlimited (KindDefinition.ofCalls t.written wrapped.written [mode]) =
      .ok ⟨⟨t, wrapped, hids⟩⟩ :=
    Kind.compile_of_verdict (.compiled ((Kind.idSet_eq_iff hfits hatom).1 hids) hfits hatom
      (PatternLibrary.accepts_unlimited _) (PatternLibrary.accepts_unlimited _))
  have hpool : (settings t.written).pool = AtomSet.ofList [] := by
    simp [Settings.pool, settings, Settings.initial, programFacts, factsFrom_nil, parseAll]
  have hcolor : (settings t.written).color = false := rfl
  have hexcluded : (settings t.written).excluded = [] := rfl
  rw [execute, hread]
  simp only [run, hdefinition, hinput, hkind, hpool, hcolor, hexcluded]

end Mode

/-- The template `--display=::m` loses its text in one argument, and the input does not match it. -/
theorem display_spellings_differ : ¬ SpellingsAgree .display "--display=::m".toList := by
  have hstrip : stripLead ValueOption.display.joinedFlag "--display=::m".toList = "::m".toList := by
    calc
      stripLead ValueOption.display.joinedFlag "--display=::m".toList
        = stripLead ValueOption.display.joinedFlag "::m".toList :=
          stripLead_append (joinedFlag_ne_nil _) "::m".toList
      _ = "::m".toList := stripLead_of_not_isPrefix (by decide)
  have hacts := actsAs_stripLead (show ValueOption.display ∈ ValueOption.joinable by decide)
    "--display=::m".toList
  rw [hstrip] at hacts
  intro h
  have hjoined := (hacts false [] _ Mode.arguments .nil).1 .unlimited none
  have hseparate := (h false [] _ Mode.arguments .nil).1 .unlimited none
  have hbare := Mode.execute_display Kind.Mode.isCanonical_bare rfl rfl none
  have hfull := Mode.execute_display Mode.isCanonical_full rfl rfl none
  have hout :
      Outcome.success (report ⟨false⟩ ⟨⟨Kind.Mode.bare, Kind.Mode.wrapped, rfl⟩⟩ (AtomSet.ofList []) []
        "--display=wide".toList) =
      .success (report ⟨false⟩ ⟨⟨Mode.full, Kind.Mode.wrapped, rfl⟩⟩ (AtomSet.ofList []) []
        "--display=wide".toList) := by
    rw [← hbare, ← hfull]
    exact hjoined.symm.trans hseparate
  exact absurd (congrArg Outcome.stdout hout) (by decide)

end CommandLine
end FactForm
