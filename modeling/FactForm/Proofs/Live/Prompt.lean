import FactForm.Proofs.Live.TypedText
import FactForm.Proofs.Text.Bytes

/-!
# FactForm.Proofs.Live.Prompt

The prompt for an input, for any template. It is what was read of the input followed by the open parts
as they are shown: of a fixed text that is half typed, the prompt adds what is missing. Where texts are
cut at offsets in bytes to this end, the offsets lie between two characters.

* `Scan.tail_append_remainder` — the tail and what is added to it are the open parts.
* `Scan.cutPrompt?` — the prompt, put together by cuts at offsets in bytes.
* `Template.prompt_exact` — the prompt is exact, and no cut fails.
-/

namespace FactForm

namespace Scan

variable {scan : Scan}

theorem tail_append_remainder (h : scan.tailFits = true) :
    scan.tail ++ scan.remainder = shownText scan.openParts := by
  unfold remainder
  split
  · rename_i text rest hparts
    obtain ⟨missing, rfl⟩ := tail_prefix_fixed h hparts
    rw [List.drop_left, hparts, ← List.append_assoc]
    rfl
  · rename_i hparts
    rw [tail_eq_nil h hparts, List.nil_append]

theorem exists_missing_of_tail (h : scan.tailFits = true) (hne : scan.tail ≠ []) :
    ∃ missing rest, scan.openParts = .fixed (scan.tail ++ missing) :: rest := by
  by_cases hfixed : ∃ text rest, scan.openParts = .fixed text :: rest
  · obtain ⟨text, rest, hparts⟩ := hfixed
    obtain ⟨missing, rfl⟩ := tail_prefix_fixed h hparts
    exact ⟨missing, rest, hparts⟩
  · exact absurd (tail_eq_nil h fun text rest hparts => hfixed ⟨text, rest, hparts⟩) hne

/-- The prompt for input that is not invalid, put together by cutting the input behind the part that was
read, and a fixed text that is half typed behind the typed half, each at an offset in bytes. There is
none if one of these offsets is behind the end of its text or inside a character. -/
def cutPrompt? (scan : Scan) (input : Text) : Option Text :=
  (Text.cutAt? input scan.stop).bind fun (_, tail) =>
    match scan.nextPart? with
    | some (.fixed text) =>
      if tail.isEmpty then some (input ++ shownText scan.openParts)
      else (Text.cutAt? text (Text.byteSize tail)).map fun (_, missing) =>
        input ++ missing ++ shownText scan.openParts.tail
    | _ => some (input ++ shownText scan.openParts)

theorem IsExact.cutAt? {input : Text} (h : scan.IsExact input) :
    Text.cutAt? input scan.stop = some (scan.consumed, scan.tail) :=
  Text.cutAt?_eq_some_iff.2 ⟨h.input_eq, h.stop_eq.symm⟩

theorem IsExact.cutPrompt? {input : Text} (h : scan.IsExact input) (htail : scan.tailFits = true) :
    scan.cutPrompt? input = some (input ++ scan.remainder) := by
  rw [Scan.cutPrompt?, h.cutAt?, Option.bind_some]
  have hshown := tail_append_remainder htail
  by_cases hne : scan.tail = []
  · rw [hne, List.nil_append] at hshown
    simp only [hne, hshown, List.isEmpty_nil, if_true]
    split <;> rfl
  · obtain ⟨missing, rest, hparts⟩ := exists_missing_of_tail htail hne
    have hnext : scan.nextPart? = some (.fixed (scan.tail ++ missing)) := by
      rw [nextPart?, hparts, List.head?_cons]
    have hremainder : scan.remainder = missing ++ shownText rest := by
      simp only [remainder, hparts, List.drop_left]
    simp only [hnext, List.isEmpty_eq_false_iff.2 hne, Bool.false_eq_true, if_false,
      Text.cutAt?_append, hparts, hremainder, Option.map_some, List.tail_cons, List.append_assoc]

end Scan

namespace Template

variable {σ : Type} [FactPool σ]

/-- The prompt for invalid input is empty. For other input it is what was read, followed by the open
parts as they are shown; it begins with the input, and it is the input if this is valid. It is also what
is put together by cuts at offsets in bytes, none of which fails: a half typed fixed text is cut behind
its typed half, within its bytes and between two of its characters. -/
theorem prompt_exact (t : Template) (pool : σ) (input : Text) :
    (t.status pool input = .invalid → t.prompt pool input = []) ∧
    (t.status pool input ≠ .invalid →
      (∃ read tail, Text.cutAt? input (t.scan input).stop = some (read, tail) ∧
        t.prompt pool input = read ++ shownText (t.parts.drop (t.scan input).matched) ∧
        (tail ≠ [] → ∃ text missing,
          t.parts[(t.scan input).matched]? = some (.fixed text) ∧
          Text.cutAt? text (Text.byteSize tail) = some (tail, missing) ∧
          Text.bytes missing = (Text.bytes text).drop (Text.byteSize tail))) ∧
      input <+: t.prompt pool input ∧
      (t.scan input).cutPrompt? input = some (t.prompt pool input) ∧
      (t.status pool input = .valid → t.prompt pool input = input)) := by
  have hexact := isExact_scan t input
  refine ⟨fun hs => if_pos hs, fun hs => ?_⟩
  have htail := tailFits_of_status hs
  have hprompt : t.prompt pool input = input ++ (t.scan input).remainder := if_neg hs
  refine ⟨⟨(t.scan input).consumed, (t.scan input).tail, hexact.cutAt?, ?_, ?_⟩, ?_, ?_, ?_⟩
  · calc t.prompt pool input
        = ((t.scan input).consumed ++ (t.scan input).tail) ++ (t.scan input).remainder := by
          rw [hprompt, ← hexact.input_eq]
      _ = (t.scan input).consumed ++ shownText (t.scan input).openParts := by
          rw [List.append_assoc, Scan.tail_append_remainder htail]
  · intro hne
    obtain ⟨missing, rest, hparts⟩ := Scan.exists_missing_of_tail htail hne
    have hcut := Text.cutAt?_append (t.scan input).tail missing
    refine ⟨_, missing, ?_, hcut, (Text.bytes_of_cutAt? hcut).2⟩
    rw [← List.head?_drop]
    exact congrArg List.head? hparts
  · exact ⟨(t.scan input).remainder, hprompt.symm⟩
  · rw [hexact.cutPrompt? htail, hprompt]
  · intro hvalid
    obtain ⟨hnil, hcomplete, _⟩ := Scan.status_eq_valid_iff.1 hvalid
    have hshown := Scan.tail_append_remainder htail
    rw [hnil, List.nil_append, Scan.openParts_of_isComplete hcomplete] at hshown
    rw [hprompt, hshown]
    exact List.append_nil input

/-- `größer ::n`, a fixed text in which a character takes two bytes, and a number. -/
def greater : Template :=
  ⟨[.fixed "größer ".toList, .slot ⟨['n'], "<n>".toList, .builtin "int".toList⟩]⟩

/-- Four bytes are typed, which are three characters. -/
theorem greater_prompt_exact :
    greater.status AtomSet.empty "grö".toList = .incomplete ∧
    greater.prompt AtomSet.empty "grö".toList = "größer <n>".toList ∧
    Text.cutAt? "größer ".toList 4 = some ("grö".toList, "ßer ".toList) ∧
    Text.cutAt? "größer ".toList 3 = none ∧
    greater.prompt AtomSet.empty "größer 7".toList = "größer 7".toList := by
  have hs : greater.status AtomSet.empty "grö".toList = .incomplete := by decide
  have hvalid : greater.status AtomSet.empty "größer 7".toList = .valid := by decide
  obtain ⟨⟨read, tail, hcut, hprompt, hmissing⟩, _⟩ :=
    (prompt_exact greater AtomSet.empty "grö".toList).2 (by rw [hs]; decide)
  have hstart : Text.cutAt? "grö".toList (greater.scan "grö".toList).stop =
      some ([], "grö".toList) := by decide
  rw [hstart] at hcut
  cases hcut
  refine ⟨hs, by rw [hprompt]; decide, by decide, by decide, ?_⟩
  exact ((prompt_exact greater AtomSet.empty "größer 7".toList).2
    (by rw [hvalid]; decide)).2.2.2 hvalid

end Template
end FactForm
