import GoldenCheck.Check.Collect
import GoldenCheck.Proofs.Check.Account
import GoldenCheck.Proofs.Expansion.Run

/-!
# What is collected

Collecting takes tokens from a source up to its end. What the source delivers up to there does not
hang on what is done with it.

* `Pulled.isEnd`, `Gathers`: the tokens in front of an end, and the end; `exists_gathers`;
* **`collect_gathers`**: what is collected of them, shown on an open channel or not at all;
* `Gathers.pulls`, `gathers_of_pulls`, `exists_gathers_of_find?`: of an expansion they are the first
  pulls.
-/

namespace GoldenCheck

/-- Nothing is collected behind this delivery. -/
def Pulled.isEnd : Pulled → Bool
  | token t => t.kind = .endOfInput
  | _ => true

theorem Pulled.isEnd_eq_false_iff {p : Pulled} :
    p.isEnd = false ↔ ∃ t, p = token t ∧ t.kind ≠ .endOfInput := by
  cases p <;> simp [isEnd]

/-- The text of tokens. -/
def textOf (ts : List Token) : String := String.join (ts.map (·.text))

section Gathers

variable {σ : Type} [TokenSource σ] {s s' : σ} {ts : List Token} {last : Pulled}

/-- The tokens that a source delivers in front of the first end, that end, and the source behind
it. -/
inductive Gathers : σ → List Token → Pulled → σ → Prop
  | stop {s : σ} (h : (TokenSource.pull s).1.isEnd = true) :
    Gathers s [] (TokenSource.pull s).1 (TokenSource.pull s).2
  | more {s s' : σ} {t : Token} {ts : List Token} {last : Pulled}
      (h : (TokenSource.pull s).1 = .token t) (hkind : t.kind ≠ .endOfInput)
      (hrest : Gathers (TokenSource.pull s).2 ts last s') :
    Gathers s (t :: ts) last s'

theorem Gathers.tokens (h : Gathers s ts last s') : ∀ t ∈ ts, t.kind ≠ .endOfInput := by
  induction h with
  | stop h => simp
  | more h hkind hrest ih => exact List.forall_mem_cons.mpr ⟨hkind, ih⟩

theorem Gathers.isEnd (h : Gathers s ts last s') : last.isEnd = true := by
  induction h with
  | stop h => exact h
  | more h hkind hrest ih => exact ih

/-- **Every source comes to an end.** -/
theorem exists_gathers (s : σ) : ∃ ts last s', Gathers s ts last s' := by
  induction s using (TokenSource.wf (σ := σ)).induction with
  | _ s ih =>
    cases hend : (TokenSource.pull s).1.isEnd with
    | true => exact ⟨_, _, _, .stop hend⟩
    | false =>
      obtain ⟨t, ht, hkind⟩ := Pulled.isEnd_eq_false_iff.mp hend
      have hafter := TokenSource.after_of_token s (by rw [ht]; rfl)
      obtain ⟨ts, last, s', hrest⟩ := ih _ hafter
      exact ⟨t :: ts, last, s', .more ht hkind hrest⟩

/-! ## Collecting -/

/-- What collecting a text from some tokens comes to, once the end is there. -/
def collectedAt (last : Pulled) (text : String) (count : Nat) (s : σ) (echo? : Option Channel) :
    Collected σ :=
  match last.error? with
  | some e => ⟨.error (.expansion e), s, echo?, []⟩
  | none => collectEnd text count s echo?

variable {text : String} {count : Nat} {echo? : Option Channel}

theorem collectFrom_token {t : Token} (h : (TokenSource.pull s).1 = .token t) :
    collectFrom text count s echo? =
      if t.kind = .endOfInput then collectEnd text count (TokenSource.pull s).2 echo?
      else
        match echoText echo? t.text with
        | (some e, echo?) => ⟨.error (.channel e), (TokenSource.pull s).2, echo?, []⟩
        | (none, echo?) =>
          collectFrom (text ++ t.text) (count + 1) (TokenSource.pull s).2 echo? := by
  have hsome : (TokenSource.pull s).1.token?.isSome = true := by rw [h]; rfl
  have hget : (TokenSource.pull s).1.token?.get hsome = t := by simp [h, Pulled.token?]
  subst hget
  rw [collectFrom]
  exact dif_pos hsome

theorem collectFrom_end (h : (TokenSource.pull s).1.isEnd = true) :
    collectFrom text count s echo? =
      collectedAt (TokenSource.pull s).1 text count (TokenSource.pull s).2 echo? := by
  cases hp : (TokenSource.pull s).1 with
  | token t =>
    rw [hp, Pulled.isEnd, decide_eq_true_eq] at h
    rw [collectFrom_token hp, if_pos h]
    rfl
  | _ =>
    have hnone : ¬ (TokenSource.pull s).1.token?.isSome = true := by simp [hp, Pulled.token?]
    rw [collectFrom]
    dsimp only
    rw [dif_neg hnone, hp]
    rfl

theorem echoText_open (hecho : ∀ out ∈ echo?, out.Open) (s : String) :
    echoText echo? s = (none, echo?.map (·.append s)) := by
  cases echo? with
  | none => rfl
  | some out => rw [echoText, Channel.write_open (hecho out rfl)]; rfl

theorem open_map_append (hecho : ∀ out ∈ echo?, out.Open) (s : String) :
    ∀ out ∈ echo?.map (·.append s), out.Open := by
  cases echo? with
  | none => simp
  | some out => simpa using (hecho out rfl).append s

/-- The texts of all tokens in front of the end are collected, and shown on an open channel. -/
theorem collectFrom_gathers (h : Gathers s ts last s') (hecho : ∀ out ∈ echo?, out.Open)
    (text : String) (count : Nat) :
    collectFrom text count s echo? =
      collectedAt last (text ++ textOf ts) (count + ts.length) s'
        (echo?.map (·.append (textOf ts))) := by
  induction h generalizing text count echo? with
  | stop h =>
    rw [collectFrom_end h]
    simp [textOf]
  | @more s s' t ts last h hkind hrest ih =>
    have htext : textOf (t :: ts) = t.text ++ textOf ts := String.join_cons
    rw [collectFrom_token h, if_neg hkind, echoText_open hecho]
    dsimp only
    rw [ih (open_map_append hecho t.text), htext, String.append_assoc, List.length_cons,
      Nat.add_right_comm, Nat.add_assoc, Option.map_map]
    simp [Function.comp_def]

/-- The text of tokens, unless an error is behind them. -/
def gatheredText (ts : List Token) (last : Pulled) : Except CheckError String :=
  match last.error? with
  | some e => .error (.expansion e)
  | none => .ok (textOf ts)

/-- What there is to log about tokens, unless an error is behind them. -/
def gatheredLog (ts : List Token) (last : Pulled) : List LogRecord :=
  match last.error? with
  | some _ => []
  | none =>
    [⟨.debug, "collected " ++ toString ts.length ++ " tokens, " ++
      toString (textOf ts).utf8ByteSize ++ " bytes of output"⟩]

/-- **What is collected is the text of the tokens in front of the end, or the error there**, and
showing it on an open channel changes nothing else. -/
theorem collect_gathers (h : Gathers s ts last s') (hecho : ∀ out ∈ echo?, out.Open) :
    collect s echo? = ⟨gatheredText ts last, s', echo?.map (·.append (textOf ts)),
      gatheredLog ts last⟩ := by
  have hflush : (echo?.map (·.append (textOf ts))).bind Channel.flush = none := by
    cases echo? with
    | none => rfl
    | some out => exact Channel.flush_open ((hecho out rfl).append _)
  rw [collect, collectFrom_gathers h hecho, collectedAt, gatheredText, gatheredLog]
  cases last.error? with
  | some e => rfl
  | none =>
    dsimp only
    rw [collectEnd, hflush]
    simp

end Gathers

/-! ## Expansions -/

section Reading

variable {disk : Disk} {e e' : Expander} {r r' : Reading} {ts : List Token} {last : Pulled}

theorem pull_reading (r : Reading) :
    TokenSource.pull r = ((r.expander.pull r.disk).1, ⟨r.disk, (r.expander.pull r.disk).2⟩) := rfl

/-- **What is gathered from an expansion are its first pulls.** -/
theorem Gathers.pulls (h : Gathers r ts last r') :
    r'.disk = r.disk ∧
      r.expander.pulls r.disk (ts.length + 1) = (ts.map .token ++ [last], r'.expander) := by
  induction h with
  | stop h => exact ⟨rfl, rfl⟩
  | more h hkind hrest ih =>
    rw [pull_reading] at h ih
    obtain ⟨hdisk, hpulls⟩ := ih
    refine ⟨hdisk, ?_⟩
    rw [List.length_cons, Expander.pulls_succ, h, hpulls]
    rfl

theorem gathers_of_pulls (h : e.pulls disk (ts.length + 1) = (ts.map .token ++ [last], e'))
    (hts : ∀ t ∈ ts, t.kind ≠ .endOfInput) (hlast : last.isEnd = true) :
    Gathers (⟨disk, e⟩ : Reading) ts last ⟨disk, e'⟩ := by
  induction ts generalizing e with
  | nil =>
    obtain ⟨hout, rfl⟩ := Prod.mk.inj h
    obtain ⟨rfl, -⟩ := List.cons.inj hout
    exact .stop hlast
  | cons t ts ih =>
    rw [List.length_cons, Expander.pulls_succ] at h
    obtain ⟨hout, hstate⟩ := Prod.mk.inj h
    obtain ⟨hfirst, hrest⟩ := List.cons.inj hout
    refine .more hfirst (hts t List.mem_cons_self) (ih (Prod.ext hrest hstate) ?_)
    exact fun u hu => hts u (List.mem_cons_of_mem _ hu)

theorem exists_gathers_of_find? {n : Nat}
    (h : (e.pulls disk n).1.find? Pulled.isEnd = some last) :
    ∃ ts r, Gathers (⟨disk, e⟩ : Reading) ts last r := by
  induction n generalizing e with
  | zero => cases h
  | succ n ih =>
    rw [Expander.pulls_succ] at h
    dsimp only at h
    cases hend : (e.pull disk).1.isEnd with
    | true =>
      rw [List.find?_cons_of_pos hend] at h
      obtain rfl := Option.some.inj h
      exact ⟨[], _, .stop hend⟩
    | false =>
      rw [List.find?_cons_of_neg (by simp [hend])] at h
      obtain ⟨t, ht, hkind⟩ := Pulled.isEnd_eq_false_iff.mp hend
      obtain ⟨ts, r, hrest⟩ := ih h
      exact ⟨t :: ts, r, .more ht hkind hrest⟩

end Reading

end GoldenCheck
