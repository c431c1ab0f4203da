import GoldenCheck.Log

/-!
# Channels

A channel takes text until it is full. Of a text that does not fit it keeps the part that does.

* `Channel.write`, `Channel.flush`, each with the fault it may find;
* `Channel.textFrom`: what was written from some byte on;
* `Console`: the two channels and the log of a program;
* `Logger.weave`, `Console.errorText`: the errors and the lines of the log, where both go to the
  same place.
-/

namespace GoldenCheck

/-- Why a channel did not take a text. -/
inductive ChannelError where
  | closed
  | flushRefused
deriving DecidableEq, Repr, Inhabited

def ChannelError.message : ChannelError → String
  | closed => "channel closed"
  | flushRefused => "flush refused"

/-- What was written to a channel, and how many bytes it still takes if it does not take all. -/
structure Channel where
  written : ByteArray := .empty
  room? : Option Nat := none
  flushFails : Bool := false
deriving Inhabited

namespace Channel

/-- Writes a text, or as much of it as fits. -/
def write (c : Channel) (s : String) : Option ChannelError × Channel :=
  let bytes := s.toUTF8
  match c.room? with
  | none => (none, { c with written := c.written ++ bytes })
  | some room =>
    if bytes.size ≤ room then
      (none, { c with written := c.written ++ bytes, room? := some (room - bytes.size) })
    else
      (some .closed, { c with written := c.written ++ bytes.extract 0 room, room? := some 0 })

/-- Hands on what was written. -/
def flush (c : Channel) : Option ChannelError := if c.flushFails then some .flushRefused else none

/-- Bytes as text; a character that is torn at the end shows as a replacement character. -/
def readable (bytes : ByteArray) : String :=
  match [0, 1, 2, 3].findSome? fun torn =>
    (String.fromUTF8? (bytes.extract 0 (bytes.size - torn))).map (·, torn) with
  | some (s, 0) => s
  | some (s, _) => s ++ "\ufffd"
  | none => "\ufffd"

/-- What was written behind the first `start` bytes. -/
def textFrom (c : Channel) (start : Nat) : String :=
  readable (c.written.extract start c.written.size)

end Channel

/-- A record, and how many bytes of errors had been written when it was made. -/
structure Logged where
  record : LogRecord
  behind : Nat
deriving DecidableEq, Repr, Inhabited

/-- What a program writes to: output, errors, and the log, whose latest record comes first. -/
structure Console where
  out : Channel := {}
  err : Channel := {}
  /-- Headings are bold. -/
  colour : Bool := false
  records : List Logged := []
deriving Inhabited

/-- The bytes that were written, with the line of each record where it was made. The latest record
comes first. -/
def Logger.weave (logger : Logger) : List Logged → ByteArray → ByteArray
  | [], written => written
  | r :: earlier, written =>
    logger.weave earlier (written.extract 0 r.behind) ++
      ((logger.line earlier.length r.record).toUTF8 ++ written.extract r.behind written.size)

namespace Console

/-- Adds records to the log, in their order. -/
def log (c : Console) (records : List LogRecord) : Console :=
  { c with records := (records.map (⟨·, c.err.written.size⟩)).reverse ++ c.records }

def logged (c : Console) : List LogRecord := (c.records.map (·.record)).reverse

/-- The errors, if a logger writes its lines to the same place. -/
def errorText (c : Console) (logger : Logger) : String :=
  Channel.readable (logger.weave c.records c.err.written)

end Console

end GoldenCheck
