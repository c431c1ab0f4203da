import GoldenCheck.Diagnostic.Basic

/-!
# Inked text

Text together with changes of colour. A terminal gets both, a log only the text.

* `Style`, `Ink`;
* `Ink.plain`: the text alone;
* `Ink.coloured`: text and escape sequences.
-/

namespace GoldenCheck

/-- What a piece of a rendered report is. -/
inductive Style where
  | severity (s : Severity)
  | title
  /-- Borders, line numbers and the bullets of notes. -/
  | frame
  | label (s : Severity) (e : Emphasis)
deriving DecidableEq, Repr

/-- A piece of text, or a change of the style of what follows. -/
inductive Ink where
  | text (s : String)
  | paint (style : Style)
  | reset
deriving DecidableEq, Repr

/-- The parameters of the escape sequences that select a style. -/
def Style.codes : Style → List String
  | severity .error => ["1", "38;5;9"]
  | severity .warning => ["1", "38;5;11"]
  | title => ["1"]
  | frame => ["34"]
  | label .error .primary => ["31"]
  | label .warning .primary => ["33"]
  | label _ .secondary => ["34"]

/-- An escape sequence that sets attributes of a terminal. -/
def escapeSequence (code : String) : String := "\x1b[" ++ code ++ "m"

namespace Ink

/-- Bold text that is reset behind it. -/
def bold (colour : Bool) (s : String) : String :=
  if colour then escapeSequence "1" ++ s ++ escapeSequence "0" else s

def plain (inks : List Ink) : String :=
  String.join (inks.map fun
    | text s => s
    | paint _ => ""
    | reset => "")

/-- The text with its colours; every change of style starts afresh. -/
def coloured (inks : List Ink) : String :=
  String.join (inks.map fun
    | text s => s
    | paint style => escapeSequence "0" ++ String.join (style.codes.map escapeSequence)
    | reset => escapeSequence "0")

def styled (style : Style) (s : String) : List Ink := [paint style, text s, reset]

def repeated (n : Nat) (c : Char) : Ink := text (String.ofList (List.replicate n c))

theorem plain_append (a b : List Ink) : plain (a ++ b) = plain a ++ plain b := by
  simp [plain]

end Ink

end GoldenCheck
