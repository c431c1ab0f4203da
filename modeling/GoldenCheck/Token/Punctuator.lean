/-!
# Punctuators

* `Punctuator`: the operators and separators of the language;
* `Punctuator.spelling`, `Punctuator.name`: how one is written and what it is called;
* `Punctuator.ofSpelling?`: the punctuator with a spelling, `ofSpelling?_spelling` its inverse law;
* `Punctuator.longest?`: the longest punctuator that a text begins with.
-/

namespace GoldenCheck

/-- The operators and separators of the language. -/
inductive Punctuator where
  | leftBracket | rightBracket | leftParen | rightParen | leftBrace | rightBrace | dot | arrow
  | plusPlus | minusMinus | ampersand | asterisk | plus | minus | tilde | bang
  | slash | percent | leftLeft | rightRight | left | right | leftEqual | rightEqual
  | equalEqual | bangEqual | caret | pipe | andAnd | pipePipe
  | question | colon | semicolon | ellipsis
  | equal | asteriskEqual | slashEqual | percentEqual | plusEqual | minusEqual
  | leftLeftEqual | rightRightEqual | ampersandEqual | caretEqual | pipeEqual
  | comma | hash | hashHash
deriving DecidableEq, Repr, Inhabited

namespace Punctuator

def all : List Punctuator :=
  [leftBracket, rightBracket, leftParen, rightParen, leftBrace, rightBrace, dot, arrow,
   plusPlus, minusMinus, ampersand, asterisk, plus, minus, tilde, bang,
   slash, percent, leftLeft, rightRight, left, right, leftEqual, rightEqual,
   equalEqual, bangEqual, caret, pipe, andAnd, pipePipe,
   question, colon, semicolon, ellipsis,
   equal, asteriskEqual, slashEqual, percentEqual, plusEqual, minusEqual,
   leftLeftEqual, rightRightEqual, ampersandEqual, caretEqual, pipeEqual,
   comma, hash, hashHash]

def spelling : Punctuator → String
  | leftBracket => "["
  | rightBracket => "]"
  | leftParen => "("
  | rightParen => ")"
  | leftBrace => "\x7b"
  | rightBrace => "\x7d"
  | dot => "."
  | arrow => "->"
  | plusPlus => "++"
  | minusMinus => "--"
  | ampersand => "&"
  | asterisk => "*"
  | plus => "+"
  | minus => "-"
  | tilde => "~"
  | bang => "!"
  | slash => "/"
  | percent => "%"
  | leftLeft => "<<"
  | rightRight => ">>"
  | left => "<"
  | right => ">"
  | leftEqual => "<="
  | rightEqual => ">="
  | equalEqual => "=="
  | bangEqual => "!="
  | caret => "^"
  | pipe => "|"
  | andAnd => "&&"
  | pipePipe => "||"
  | question => "?"
  | colon => ":"
  | semicolon => ";"
  | ellipsis => "..."
  | equal => "="
  | asteriskEqual => "*="
  | slashEqual => "/="
  | percentEqual => "%="
  | plusEqual => "+="
  | minusEqual => "-="
  | leftLeftEqual => "<<="
  | rightRightEqual => ">>="
  | ampersandEqual => "&="
  | caretEqual => "^="
  | pipeEqual => "|="
  | comma => ","
  | hash => "#"
  | hashHash => "##"

def name : Punctuator → String
  | leftBracket => "LeftBracket"
  | rightBracket => "RightBracket"
  | leftParen => "LeftParen"
  | rightParen => "RightParen"
  | leftBrace => "LeftBrace"
  | rightBrace => "RightBrace"
  | dot => "Dot"
  | arrow => "Arrow"
  | plusPlus => "PlusPlus"
  | minusMinus => "MinusMinus"
  | ampersand => "Ampersand"
  | asterisk => "Asterisk"
  | plus => "Plus"
  | minus => "Minus"
  | tilde => "Tilde"
  | bang => "Bang"
  | slash => "Slash"
  | percent => "Percent"
  | leftLeft => "LeftLeft"
  | rightRight => "RightRight"
  | left => "Left"
  | right => "Right"
  | leftEqual => "LeftEqual"
  | rightEqual => "RightEqual"
  | equalEqual => "EqualEqual"
  | bangEqual => "BangEqual"
  | caret => "Caret"
  | pipe => "Pipe"
  | andAnd => "AndAnd"
  | pipePipe => "PipePipe"
  | question => "Question"
  | colon => "Colon"
  | semicolon => "Semicolon"
  | ellipsis => "Ellipsis"
  | equal => "Equal"
  | asteriskEqual => "AsteriskEqual"
  | slashEqual => "SlashEqual"
  | percentEqual => "PercentEqual"
  | plusEqual => "PlusEqual"
  | minusEqual => "MinusEqual"
  | leftLeftEqual => "LeftLeftEqual"
  | rightRightEqual => "RightRightEqual"
  | ampersandEqual => "AmpersandEqual"
  | caretEqual => "CaretEqual"
  | pipeEqual => "PipeEqual"
  | comma => "Comma"
  | hash => "Hash"
  | hashHash => "HashHash"

def ofSpelling? (s : String) : Option Punctuator := all.find? fun p => p.spelling == s

/-- **A punctuator is found by its spelling.** -/
theorem ofSpelling?_spelling (p : Punctuator) : ofSpelling? p.spelling = some p := by
  cases p <;> decide

/-- No spelling has more characters. -/
def maxLength : Nat := 3

theorem length_spelling_le (p : Punctuator) : p.spelling.toList.length ≤ maxLength := by
  cases p <;> decide

/-- The longest punctuator that a text begins with, and the number of its characters. -/
def longest? (text : List Char) : Option (Punctuator × Nat) :=
  [3, 2, 1].findSome? fun n =>
    if n ≤ text.length then (ofSpelling? (String.ofList (text.take n))).map (·, n) else none

end Punctuator

end GoldenCheck
