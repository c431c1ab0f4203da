/-!
# Settings

What the reading of sources can be asked to do and to warn about. Settings are given by their
names in lower case.

* `Feature`, `Warning`, each with `name`, `label`, `position` and `ofLabel?`.
-/

namespace GoldenCheck

/-- Behaviour that is off unless it is asked for. -/
inductive Feature where
  /-- Pairs such as a less-than sign and a colon stand for one character. -/
  | digraphs
  /-- Two question marks and a character stand for one character. -/
  | trigraphs
  /-- Lines in the output tell where what follows was read. -/
  | lineMarkers
  /-- Comments are kept in the output. -/
  | keepComments
deriving DecidableEq, Repr, Inhabited

/-- A fault that is reported only if it is asked for. -/
inductive Warning where
  /-- A file is included by the directive that includes it only once. -/
  | importDirective
  /-- A trigraph stands in a file while trigraphs are off. -/
  | trigraphs
deriving DecidableEq, Repr, Inhabited

namespace Feature

def all : List Feature := [digraphs, trigraphs, lineMarkers, keepComments]

def name : Feature → String
  | digraphs => "Digraphs"
  | trigraphs => "Trigraphs"
  | lineMarkers => "LineMarkers"
  | keepComments => "KeepComments"

/-- How the feature is asked for. -/
def label : Feature → String
  | digraphs => "digraphs"
  | trigraphs => "trigraphs"
  | lineMarkers => "line_markers"
  | keepComments => "keep_comments"

/-- The position of the feature among all of them. -/
def position (f : Feature) : Nat := all.idxOf f

def ofLabel? (s : String) : Option Feature := all.find? (·.label == s)

theorem ofLabel?_label (f : Feature) : ofLabel? f.label = some f := by cases f <;> decide

end Feature

namespace Warning

def all : List Warning := [importDirective, trigraphs]

def name : Warning → String
  | importDirective => "Import"
  | trigraphs => "Trigraphs"

/-- How the warning is asked for. -/
def label : Warning → String
  | importDirective => "import"
  | trigraphs => "trigraphs"

/-- The position of the warning among all of them. -/
def position (w : Warning) : Nat := all.idxOf w

def ofLabel? (s : String) : Option Warning := all.find? (·.label == s)

theorem ofLabel?_label (w : Warning) : ofLabel? w.label = some w := by cases w <;> decide

end Warning

end GoldenCheck
