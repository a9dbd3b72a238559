import FactForm.Text

/-!
# FactForm.Pattern

The grammar written as regular expressions, for a library that compiles them.

* `Pattern`        — regular expressions over classes of characters, and their texts.
* `Pattern.value`, `Pattern.atom`, `Pattern.marker` — the token classes.
* `PatternLibrary` — what compiles patterns, and may refuse one.

A value has one group and a literal none, so that the groups of a sequence of literals and values are
the values from left to right.
-/

namespace FactForm

/-- The characters that a pattern asks for at one place. -/
inductive Symbol where
  | char (c : Char)
  | sign
  | lower
  | word
  | digit
  | positive
  | blank
  | unescaped
  | any
  deriving DecidableEq

namespace Symbol

def metaCharacters : Text := "\\.+*?()|[]\x7b\x7d^$#&-~".toList

def text : Symbol → Text
  | .char c => if metaCharacters.contains c then ['\\', c] else [c]
  | .sign => ['-']
  | .lower => "[a-z]".toList
  | .word => "[A-Za-z0-9_]".toList
  | .digit => "[0-9]".toList
  | .positive => "[1-9]".toList
  | .blank => "\\s".toList
  | .unescaped => "[^\"\\\\]".toList
  | .any => ['.']

end Symbol

inductive Pattern where
  | empty
  | one (symbol : Symbol)
  | seq (first second : Pattern)
  | alt (preferred other : Pattern)
  | star (body : Pattern)
  | optional (body : Pattern)
  | group (body : Pattern)
  deriving DecidableEq

namespace Pattern

/-- The text of a pattern to which a star or a question mark is to apply. -/
def operand : Pattern → Text → Text
  | .one _, text => text
  | _, text => "(?:".toList ++ text ++ [')']

/-- An alternative is put in brackets only by what stands around it. -/
def text : Pattern → Text
  | .empty => []
  | .one x => x.text
  | .seq p q => p.text ++ q.text
  | .alt p q => p.text ++ '|' :: q.text
  | .star p => operand p p.text ++ ['*']
  | .optional p => operand p p.text ++ ['?']
  | .group p => '(' :: p.text ++ [')']

def char (c : Char) : Pattern := .one (.char c)

def literal (text : Text) : Pattern := text.foldr (fun c p => .seq (char c) p) .empty

def identifier : Pattern := .seq (.one .lower) (.star (.one .word))

def quotedString : Pattern :=
  .seq (char '"')
    (.seq (.star (.alt (.one .unescaped) (.seq (char '\\') (.one .any)))) (char '"'))

def number : Pattern := .alt (char '0') (.seq (.one .positive) (.star (.one .digit)))

def value : Pattern := .group (.alt identifier (.alt quotedString number))

def argument : Pattern := .seq (.star (.one .blank)) (.seq value (.star (.one .blank)))

def arguments : Pattern := .seq argument (.star (.seq (char ',') argument))

def predicate : Pattern := .seq (.optional (.one .sign)) identifier

def argumentList : Pattern := .seq (char '(') (.seq (.group arguments) (char ')'))

/-- The first group is the predicate, the second what stands between the parentheses. -/
def atom : Pattern := .seq (.group predicate) (.optional argumentList)

def marker : Pattern := .seq (char ':') (.seq (char ':') (.group identifier))

/-- The pattern at the front of a text. -/
def atFront (p : Pattern) : Text := "^(?:".toList ++ p.text ++ [')']

def whole (p : Pattern) : Text := p.atFront ++ ['$']

end Pattern

/-- A library that compiles patterns. It gives a message for a pattern that it refuses, such as one
beyond its limit of size. -/
structure PatternLibrary where
  refusal? : Text → Option Text

def PatternLibrary.unlimited : PatternLibrary := ⟨fun _ => none⟩

example : Pattern.value.text = "([a-z][A-Za-z0-9_]*|\"(?:[^\"\\\\]|\\\\.)*\"|0|[1-9][0-9]*)".toList := by
  decide

end FactForm
