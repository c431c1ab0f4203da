import GoldenCheck.Check.Failure
import GoldenCheck.Expansion.TokenSource

/-!
# Collecting an output

* `Collected`: the text of the tokens up to the end, or what stopped the collecting;
* `collectFrom`, `collect`: the tokens of a source, each shown as soon as it arrives if that is
  asked for. The end is the end of the source or a token that says so, whichever comes first.
-/

namespace GoldenCheck

/-- The outcome of collecting, the source behind it, the channel that the tokens were shown on, and
what there is to log. -/
structure Collected (σ : Type) where
  result : Except CheckError String
  source : σ
  echo? : Option Channel
  log : List LogRecord := []

/-- Shows a text, if texts are shown. -/
def echoText (echo? : Option Channel) (s : String) : Option ChannelError × Option Channel :=
  match echo? with
  | none => (none, none)
  | some c =>
    let (error?, c) := c.write s
    (error?, some c)

/-- What collecting ends with when nothing has stopped it. -/
def collectEnd {σ : Type} (text : String) (count : Nat) (s : σ) (echo? : Option Channel) :
    Collected σ :=
  match echo?.bind Channel.flush with
  | some e => ⟨.error (.channel e), s, echo?, []⟩
  | none =>
    ⟨.ok text, s, echo?, [⟨.debug, "collected " ++ toString count ++ " tokens, " ++
      toString text.utf8ByteSize ++ " bytes of output"⟩]⟩

variable {σ : Type} [TokenSource σ]

/-- Collects what is left of a source behind `count` tokens with a text. -/
def collectFrom (text : String) (count : Nat) (s : σ) (echo? : Option Channel) : Collected σ :=
  let next := TokenSource.pull s
  if h : next.1.token?.isSome then
    have := TokenSource.after_of_token s h
    let t := next.1.token?.get h
    if t.kind = .endOfInput then collectEnd text count next.2 echo?
    else
      match echoText echo? t.text with
      | (some e, echo?) => ⟨.error (.channel e), next.2, echo?, []⟩
      | (none, echo?) => collectFrom (text ++ t.text) (count + 1) next.2 echo?
  else
    match next.1.error? with
    | some e => ⟨.error (.expansion e), next.2, echo?, []⟩
    | none => collectEnd text count next.2 echo?
termination_by TokenSource.wf.wrap s

/-- Collects the text of the tokens of a source. -/
def collect (s : σ) (echo? : Option Channel) : Collected σ := collectFrom "" 0 s echo?

end GoldenCheck
