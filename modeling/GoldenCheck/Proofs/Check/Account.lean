import GoldenCheck.Check.Evaluation

/-!
# What a check returns and writes

A check writes on a console that may have been written on before. Its account is what it returns
and what it adds to the channels and to the log. On channels that take every text the account of a
check does not hang on what stands there, and the account of a check is put together from those of
its parts.

* `Channel.write_append`: a text is written as its parts are;
* `Channel.Open`, `Console.Open`: channels that take every text;
* `Account`, `Check.account`: what a check returns and writes;
* `Gives`: a check has one account on all open consoles; **`Gives.bind`**, `Gives.stop`: the account
  of two checks, one behind the other;
* `Steady`: such an account exists; **`Gives.account`**, `Steady.account_eq`; `steady_checkFile`.
-/

namespace GoldenCheck

/-! ## Channels -/

namespace Channel

theorem extract_of_le {bytes : ByteArray} {n : Nat} (h : bytes.size ≤ n) :
    bytes.extract 0 n = bytes := by
  apply ByteArray.ext
  rw [ByteArray.data_extract, Array.extract_eq_self_of_le h]

theorem toUTF8_append (s t : String) : (s ++ t).toUTF8 = s.toUTF8 ++ t.toUTF8 :=
  String.toByteArray_append

/-- **A text is written as its parts are**, one behind the other, up to the first that does not
fit. -/
theorem write_append (c : Channel) (s t : String) :
    c.write (s ++ t) =
      match c.write s with
      | (some e, c') => (some e, c')
      | (none, c') => c'.write t := by
  have hsize : (s ++ t).toUTF8.size = s.toUTF8.size + t.toUTF8.size := by
    rw [toUTF8_append, ByteArray.size_append]
  cases hroom : c.room? with
  | none => simp [write, hroom, ByteArray.append_assoc]
  | some room =>
    have hcut : (s ++ t).toUTF8.extract 0 room =
        s.toUTF8.extract 0 room ++ t.toUTF8.extract 0 (room - s.toUTF8.size) := by
      rw [toUTF8_append, ByteArray.extract_append, Nat.zero_sub]
    by_cases hs : s.toUTF8.size ≤ room
    · by_cases ht : t.toUTF8.size ≤ room - s.toUTF8.size
      · have hst : (s ++ t).toUTF8.size ≤ room := by omega
        simp only [write, hroom, hs, ht, hst, if_true]
        rw [hsize, toUTF8_append, ByteArray.append_assoc, Nat.sub_add_eq]
      · have hst : ¬ (s ++ t).toUTF8.size ≤ room := by omega
        simp only [write, hroom, hs, ht, hst, if_true, if_false]
        rw [hcut, extract_of_le hs, ByteArray.append_assoc]
    · have hst : ¬ (s ++ t).toUTF8.size ≤ room := by omega
      have hnone : t.toUTF8.extract 0 (room - s.toUTF8.size) = .empty := by
        rw [Nat.sub_eq_zero_of_le (by omega), ByteArray.extract_same]
      simp only [write, hroom, hs, hst, if_false]
      rw [hcut, hnone, ByteArray.append_empty]

theorem write_empty (c : Channel) : c.write "" = (none, c) := by
  rcases c with ⟨w, _ | room, f⟩ <;> simp [write]

/-- The channel takes every text, and can always be flushed. -/
structure Open (c : Channel) : Prop where
  room : c.room? = none
  flush : c.flushFails = false

/-- The channel behind a text that it has taken. -/
def append (c : Channel) (s : String) : Channel := { c with written := c.written ++ s.toUTF8 }

variable {c : Channel}

theorem Open.append (h : c.Open) (s : String) : (c.append s).Open := ⟨h.room, h.flush⟩

theorem write_open (h : c.Open) (s : String) : c.write s = (none, c.append s) := by
  simp [write, Channel.append, h.room]

theorem flush_open (h : c.Open) : c.flush = none := by
  simp [Channel.flush, h.flush]

@[simp] theorem append_empty (c : Channel) : c.append "" = c := by
  simp [append]

@[simp] theorem append_append (c : Channel) (s t : String) :
    (c.append s).append t = c.append (s ++ t) := by
  simp [append, ByteArray.append_assoc]

theorem readable_toUTF8 (s : String) : readable s.toUTF8 = s := by
  have hall : s.toUTF8.extract 0 (s.toUTF8.size - 0) = s.toUTF8 := by
    rw [Nat.sub_zero, ByteArray.extract_zero_size]
  have htext : String.fromUTF8? s.toUTF8 = some s := dif_pos s.isValidUTF8
  rw [readable, List.findSome?_cons, hall, htext]
  rfl

theorem textFrom_append (c : Channel) (s : String) :
    (c.append s).textFrom c.written.size = s := by
  rw [textFrom, append, ByteArray.extract_append_eq_right rfl ByteArray.size_append,
    readable_toUTF8]

end Channel

/-- Both channels take every text. -/
structure Console.Open (c : Console) : Prop where
  out : c.out.Open
  err : c.err.Open

theorem Console.open_new (colour : Bool) : Console.Open { colour } := ⟨⟨rfl, rfl⟩, ⟨rfl, rfl⟩⟩

/-! ## Accounts -/

/-- The record, with more errors in front of it. -/
def Logged.later (r : Logged) (bytes : Nat) : Logged := { r with behind := bytes + r.behind }

@[simp] theorem Logged.later_mk_zero (r : LogRecord) (bytes : Nat) :
    (Logged.mk r 0).later bytes = ⟨r, bytes⟩ := rfl

@[simp] theorem Logged.later_later (r : Logged) (m n : Nat) :
    (r.later m).later n = r.later (n + m) := by
  simp [later, Nat.add_assoc]

/-- What a check returns, and what it adds to the channels and to the log. A record stands behind so
many bytes of the errors that are added. -/
structure Account (α : Type) where
  result : Except CheckError α
  out : String := ""
  err : String := ""
  records : List Logged := []

variable {α β : Type}

/-- Both were written, and the second result is returned. -/
def Account.andThen (a : Account α) (b : Account β) : Account β :=
  ⟨b.result, a.out ++ b.out, a.err ++ b.err,
    a.records ++ b.records.map (·.later a.err.utf8ByteSize)⟩

/-- Another result of what was written. -/
def Account.withResult (a : Account α) (result : Except CheckError β) : Account β :=
  ⟨result, a.out, a.err, a.records⟩

namespace Console

/-- The console behind what an account tells of. -/
def after (c : Console) (a : Account α) : Console :=
  { c with
    out := c.out.append a.out
    err := c.err.append a.err
    records := (a.records.map (·.later c.err.written.size)).reverse ++ c.records }

variable {c : Console}

theorem Open.after (h : c.Open) (a : Account α) : (c.after a).Open :=
  ⟨h.out.append a.out, h.err.append a.err⟩

theorem after_andThen (c : Console) (a : Account α) (b : Account β) :
    c.after (a.andThen b) = (c.after a).after b := by
  have hsize : (c.err.append a.err).written.size = c.err.written.size + a.err.utf8ByteSize :=
    ByteArray.size_append
  simp [after, Account.andThen, hsize, Function.comp_def]

theorem after_of_silent (c : Console) (result : Except CheckError α) :
    c.after { result } = c := by
  simp [after]

theorem after_of_logged (c : Console) (result : Except CheckError α) (records : List LogRecord) :
    c.after { result, records := records.map (⟨·, 0⟩) } = c.log records := by
  simp [after, Console.log, Function.comp_def]

end Console

/-- What the check returns and writes, begun on a console. -/
def Check.account (m : Check α) (c : Console) : Account α :=
  let done := m.run c
  { result := done.1
    out := done.2.out.textFrom c.out.written.size
    err := done.2.err.textFrom c.err.written.size
    records := (done.2.records.reverse.drop c.records.length).map fun r =>
      { r with behind := r.behind - c.err.written.size } }

/-- On every open console the check has this account. -/
def Gives (m : Check α) (colour : Bool) (a : Account α) : Prop :=
  ∀ c : Console, c.Open → c.colour = colour → m.run c = (a.result, c.after a)

/-- **An account that is given is the account of the check**, whatever was written before. -/
theorem Gives.account {m : Check α} {colour : Bool} {a : Account α} {c : Console}
    (h : Gives m colour a) (hc : c.Open) (hcolour : c.colour = colour) : m.account c = a := by
  have hrecords : (c.after a).records.reverse.drop c.records.length =
      a.records.map (·.later c.err.written.size) := by
    rw [Console.after, List.reverse_append, List.reverse_reverse,
      List.drop_left' List.length_reverse]
  have hback : ((a.records.map (·.later c.err.written.size)).map fun r =>
      { r with behind := r.behind - c.err.written.size }) = a.records := by
    simp [Logged.later, Function.comp_def]
  simp only [Check.account, h c hc hcolour, hrecords, hback]
  simp only [Console.after, Channel.textFrom_append]

/-! ## Parts of a check -/

namespace Check

theorem run_bind (m : Check α) (f : α → Check β) (c : Console) :
    (m >>= f).run c =
      match m.run c with
      | (.ok a, c') => (f a).run c'
      | (.error e, c') => (.error e, c') := by
  rw [ExceptT.run_bind]
  simp only [bind, StateT.bind]
  rcases m.run c with ⟨_ | _, c'⟩ <;> rfl

theorem run_ofFunction (f : Console → Except CheckError α × Console) (c : Console) :
    (Check.ofFunction f).run c = f c := rfl

theorem run_write (s : String) (c : Console) :
    (Check.write s).run c =
      (match (c.out.write s).1 with
        | some e => .error (.channel e)
        | none => .ok (), { c with out := (c.out.write s).2 }) := rfl

theorem run_writeError (s : String) (c : Console) :
    (Check.writeError s).run c =
      (match (c.err.write s).1 with
        | some e => .error (.channel e)
        | none => .ok (), { c with err := (c.err.write s).2 }) := rfl

theorem run_flushErrors (c : Console) :
    Check.flushErrors.run c =
      (match c.err.flush with
        | some e => .error (.channel e)
        | none => .ok (), c) := rfl

theorem run_log (level : Level) (message : String) (c : Console) :
    (Check.log level message).run c = (.ok (), c.log [⟨level, message⟩]) := rfl

theorem run_heading (s : String) (c : Console) :
    (heading s).run c = (Check.writeError (Ink.bold c.colour s ++ "\n")).run c := rfl

end Check

section Parts

variable {colour : Bool} {m : Check α} {f : α → Check β} {a : Account α} {b : Account β}

/-- **The account of two checks** is the first one and then the second one. -/
theorem Gives.bind {x : α} (h : Gives m colour a) (hx : a.result = .ok x)
    (h' : Gives (f x) colour b) : Gives (m >>= f) colour (a.andThen b) := by
  intro c hc hcolour
  rw [Check.run_bind, h c hc hcolour, hx]
  dsimp only
  rw [h' _ (hc.after a) hcolour, Console.after_andThen]
  rfl

theorem Gives.stop {e : CheckError} (h : Gives m colour a) (he : a.result = .error e) :
    Gives (m >>= f) colour (a.withResult (.error e)) := by
  intro c hc hcolour
  rw [Check.run_bind, h c hc hcolour, he]
  rfl

theorem gives_pure (x : α) : Gives (pure x) colour { result := .ok x } := by
  intro c _ _
  rw [Console.after_of_silent]
  rfl

theorem gives_throw (e : CheckError) : Gives (throw e : Check α) colour { result := .error e } := by
  intro c _ _
  rw [Console.after_of_silent]
  rfl

theorem gives_write (s : String) : Gives (Check.write s) colour { result := .ok (), out := s } := by
  intro c hc _
  rw [Check.run_write, Channel.write_open hc.out]
  simp [Console.after]

theorem gives_writeError (s : String) :
    Gives (Check.writeError s) colour { result := .ok (), err := s } := by
  intro c hc _
  rw [Check.run_writeError, Channel.write_open hc.err]
  simp [Console.after]

theorem gives_flushErrors : Gives Check.flushErrors colour { result := .ok () } := by
  intro c hc _
  rw [Check.run_flushErrors, Channel.flush_open hc.err, Console.after_of_silent]

theorem gives_log (level : Level) (message : String) :
    Gives (Check.log level message) colour
      { result := .ok (), records := [⟨⟨level, message⟩, 0⟩] } := by
  intro c _ _
  rw [Check.run_log]
  exact Prod.ext rfl (c.after_of_logged _ [⟨level, message⟩]).symm

theorem gives_heading (s : String) :
    Gives (heading s) colour { result := .ok (), err := Ink.bold colour s ++ "\n" } := by
  intro c hc hcolour
  rw [Check.run_heading, hcolour]
  exact gives_writeError _ c hc hcolour

end Parts

/-! ## Steady checks -/

/-- The check has an account on open consoles. -/
def Steady (m : Check α) : Prop := ∀ colour, ∃ a, Gives m colour a

section Steady

variable {m : Check α} {f : α → Check β}

theorem Gives.steady {a : Bool → Account α} (h : ∀ colour, Gives m colour (a colour)) : Steady m :=
  fun colour => ⟨a colour, h colour⟩

theorem Steady.bind (h : Steady m) (hf : ∀ x, Steady (f x)) : Steady (m >>= f) := by
  intro colour
  obtain ⟨a, ha⟩ := h colour
  cases hr : a.result with
  | error e => exact ⟨_, ha.stop hr⟩
  | ok x =>
    obtain ⟨b, hb⟩ := hf x colour
    exact ⟨_, ha.bind hr hb⟩

/-- **A steady check returns and writes on every open console what it does on a new one.** -/
theorem Steady.account_eq (h : Steady m) {c : Console} (hc : c.Open) :
    m.account c = m.account { colour := c.colour } := by
  obtain ⟨a, ha⟩ := h c.colour
  rw [ha.account hc rfl, ha.account (Console.open_new c.colour) rfl]

theorem Steady.run_eq (h : Steady m) {c : Console} (hc : c.Open) :
    m.run c = ((m.account c).result, c.after (m.account c)) := by
  obtain ⟨a, ha⟩ := h c.colour
  rw [ha.account hc rfl, ha c hc rfl]

end Steady

/-! ## Checks of an output -/

section Evaluation

variable (s : Subject) (disk : Disk) (path : Path)

theorem steady_pure (x : α) : Steady (pure x) := Gives.steady fun _ => gives_pure x

theorem steady_throw (e : CheckError) : Steady (throw e : Check α) :=
  Gives.steady fun _ => gives_throw e

theorem steady_writeError (s : String) : Steady (Check.writeError s) :=
  Gives.steady fun _ => gives_writeError s

theorem steady_heading (s : String) : Steady (heading s) := Gives.steady fun _ => gives_heading s

theorem steady_dump : Steady s.dump := by
  have hflush : Steady Check.flushErrors := Gives.steady fun _ => gives_flushErrors
  unfold Subject.dump
  refine (steady_heading _).bind fun _ => (steady_writeError _).bind fun _ => ?_
  cases s.definitions? with
  | none => exact hflush
  | some definitions =>
    exact (steady_heading _).bind fun _ => (steady_writeError _).bind fun _ => hflush

theorem steady_evaluate (d : Directive) (line : Nat) : Steady (d.evaluate s line) := by
  unfold Directive.evaluate
  split
  · exact (Gives.steady fun _ => gives_log _ _).bind fun _ =>
      (steady_dump s).bind fun _ => steady_throw _
  · split
    · exact Gives.steady fun _ => gives_write _
    · exact steady_pure ()

theorem steady_checkFrom (lines : List (List UInt8)) (number : Nat) :
    Steady (checkFrom s path number lines) := by
  induction lines generalizing number with
  | nil => exact steady_pure ()
  | cons line lines ih =>
    rw [checkFrom]
    split
    · exact steady_throw _
    · split
      · exact steady_throw _
      · exact (Gives.steady fun _ => gives_log _ _).bind fun _ =>
          (steady_evaluate s _ number).bind fun _ => ih (number + 1)

/-- **Checking an output against a file is steady.** -/
theorem steady_checkFile : Steady (checkFile s disk path) := by
  unfold checkFile
  split
  · exact steady_throw _
  · exact steady_checkFrom s path _ 1

end Evaluation

end GoldenCheck
