import GoldenCheck.Source.Table
import GoldenCheck.Token.Punctuator

/-!
# Tokens

* `TokenKind`: what a token is, not how it is spelled;
* `Token`: a kind, the text it has in the output, and where it was read.
-/

namespace GoldenCheck

/-- What a token is. -/
inductive TokenKind where
  | identifier
  | number
  | stringLiteral
  | charLiteral
  | punctuator (p : Punctuator)
  /-- A run of blanks, or a comment that is not kept. -/
  | whitespace
  | newline
  | comment
  /-- Tells a reader of the output which line of which file comes next. -/
  | lineMarker
  /-- A character that begins no other token. -/
  | other
  | endOfInput
deriving DecidableEq, Repr, Inhabited

/-- A piece of text that is read as a unit. -/
structure Token where
  kind : TokenKind
  text : String
  location : Location
deriving DecidableEq, Repr, Inhabited

namespace Token

/-- The token behind the last input, reported at the start of a file. -/
def endOfInput (file : Nat) : Token := ⟨.endOfInput, "", ⟨file, .at 0⟩⟩

/-- Whether the token only separates others on its line. -/
def isBlank (t : Token) : Bool := t.kind == .whitespace || t.kind == .comment

def isPunctuator (t : Token) (p : Punctuator) : Bool := t.kind == .punctuator p

def word? (t : Token) : Option String := if t.kind = .identifier then some t.text else none

end Token

end GoldenCheck
