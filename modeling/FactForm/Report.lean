import FactForm.Kind

/-!
# FactForm.Report

What the command line prints about one input: how it follows the display template, its state, its
completions and its entity.

* `Palette` — how text is coloured, or not.
* `report`  — the whole report, one line after the other.
-/

namespace FactForm

namespace Ansi

def escape (code : String) : Text := '\x1b' :: '[' :: code.toList

def reset : Text := escape "0m"
def bold : Text := escape "1m"
def dim : Text := escape "2m"
def red : Text := escape "31m"
def green : Text := escape "32m"
def yellow : Text := escape "33m"
def blue : Text := escape "34m"
def cyan : Text := escape "36m"
def gray : Text := escape "90m"

end Ansi

structure Palette where
  enabled : Bool

/-- The text in a style, if colours are wanted. -/
def Palette.paint (palette : Palette) (style text : Text) : Text :=
  if palette.enabled then style ++ text ++ Ansi.reset else text

namespace Report

def indent (words : List Text) : Text := ' ' :: ' ' :: Text.joinWith [' '] words

def numbered (palette : Palette) (index : Nat) : Text :=
  palette.paint Ansi.gray ('[' :: decimal index ++ [']'])

def heading (palette : Palette) (title : String) : List Text :=
  [[], palette.paint Ansi.gray ("━━━ ".toList ++ title.toList ++ " ━━━".toList)]

def partText (palette : Palette) : Part → Text
  | .fixed text => palette.paint Ansi.yellow (Text.quoted text)
  | .slot p =>
    Text.joinWith [' ']
      [palette.paint Ansi.cyan (':' :: ':' :: p.id),
       palette.paint Ansi.dim ("label=".toList ++ Text.quoted p.label),
       palette.paint Ansi.dim ("source=".toList ++ Text.quoted p.source.text)]

def partLine (palette : Palette) (matched : Nat) (part : Part) (index : Nat) : Text :=
  let mark :=
    if index < matched then palette.paint Ansi.green ['✓'] else palette.paint Ansi.dim ['·']
  indent [mark, numbered palette index, partText palette part]

def slotLine (palette : Palette) (m : SlotMatch) : Text :=
  indent
    [palette.paint Ansi.yellow (decimal m.start ++ '.' :: '.' :: decimal m.stop),
     palette.paint Ansi.blue m.placeholder.id, m.value]

def templateLines (palette : Palette) (scan : Scan) : List Text :=
  scan.template.parts.mapIdx (fun index part => partLine palette scan.matched part index) ++
    scan.slots.map (slotLine palette) ++
    if scan.tail.isEmpty then []
    else [indent [palette.paint Ansi.dim "unmatched:".toList, Text.quoted scan.tail]]

def statusStyle : Status → Text
  | .valid => Ansi.green
  | .incomplete => Ansi.yellow
  | .invalid => Ansi.red

def statusLines (palette : Palette) (status : Status) (prompt : Text) : List Text :=
  indent [palette.paint Ansi.bold (palette.paint (statusStyle status) status.text)] ::
    if prompt.isEmpty then [] else [indent [palette.paint Ansi.dim "prompt:".toList, prompt]]

def suggestionLines (palette : Palette) (found : Suggestions) : List Text :=
  (if found.items.isEmpty then [palette.paint Ansi.dim "  No suggestions".toList]
   else found.items.mapIdx fun index item => indent [numbered palette index, item]) ++
    if found.matchesInput then
      [indent [palette.paint Ansi.dim "(input is itself a suggestion)".toList]]
    else []

def entityLines (palette : Palette) : Except RepresentationError Entity → List Text
  | .ok e =>
    (e.values.entries.map fun (id, value) =>
      indent [palette.paint Ansi.blue (id ++ [':']), value]) ++
    [indent [palette.paint Ansi.dim "atom:".toList,
      palette.paint Ansi.bold (palette.paint Ansi.green e.atom)]]
  | .error e => [indent [palette.paint Ansi.dim e.message]]

end Report

open Report in
def report (palette : Palette) (kind : Kind) (pool : AtomSet) (excluded : List Text)
    (input : Text) : List Text :=
  [[], palette.paint Ansi.bold
    (palette.paint Ansi.cyan ("⚙  Input: \"".toList ++ input ++ ['"']))] ++
  heading palette "Template" ++ templateLines palette (kind.codec.display.scan input) ++
  [indent [palette.paint Ansi.dim "known atoms:".toList,
    palette.paint Ansi.blue (decimal pool.size)]] ++
  heading palette "Validation" ++
  statusLines palette (kind.status pool input) (kind.prompt pool input) ++
  heading palette "Suggestions" ++
  suggestionLines palette (kind.suggestFor pool excluded input) ++
  heading palette "Entity" ++ entityLines palette (kind.entity input) ++ [[]]

end FactForm
