import GoldenCheck.Proofs.Check.Collecting
import Mathlib.Order.Bounds.Basic

/-!
# What collecting takes and shows

Collecting pulls up to the first end and no further, unless a channel does not take a text that is
shown. What a channel takes then is the front of all texts.

* `TokenSource.behind`, `TokenSource.delivery`: a source as the list of its deliveries;
  `Gathers.deliveries`, `Gathers.isLeast`: the first end among them;
* `Channel.shown`, `Channel.faultAt`: texts that are written one by one;
  **`Channel.Shows.written`**, **`Channel.Tears.written`**: what a channel holds that takes all of
  them, and one that does not;
* **`collectFrom_shown`**, **`collectFrom_tears`**: collecting while all tokens are shown, and up to
  one that is not; `collect_shown`, `collect_unflushed`: what it comes to at the end;
* **`collect_drains`**.
-/

namespace GoldenCheck

/-! ## Deliveries -/

namespace TokenSource

variable {σ : Type} [TokenSource σ]

/-- The source behind its first pulls. -/
def behind (s : σ) (n : Nat) : σ := (fun s => (pull s).2)^[n] s

/-- What a pull delivers, the first one with the index nought. -/
def delivery (s : σ) (i : Nat) : Pulled := (pull (behind s i)).1

variable (s : σ)

theorem behind_succ (n : Nat) : behind s (n + 1) = behind (pull s).2 n := rfl

theorem delivery_succ (i : Nat) : delivery s (i + 1) = delivery (pull s).2 i := rfl

theorem meter_behind {meter : σ → Nat} (hmeter : ∀ s, meter (pull s).2 = meter s + 1) (n : Nat) :
    meter (behind s n) = meter s + n := by
  induction n generalizing s with
  | zero => rfl
  | succ n ih => rw [behind_succ, ih, hmeter, Nat.add_assoc, Nat.add_comm 1 n]

end TokenSource

open TokenSource (behind delivery)

section Deliveries

variable {σ : Type} [TokenSource σ] {s s' : σ} {ts : List Token} {last : Pulled}

theorem Gathers.deliveries (h : Gathers s ts last s') :
    (List.range ts.length).map (delivery s) = ts.map .token ∧
      delivery s ts.length = last ∧ behind s (ts.length + 1) = s' := by
  induction h with
  | stop h => exact ⟨rfl, rfl, rfl⟩
  | @more s s' t ts last h hkind hrest ih =>
    obtain ⟨htokens, hlast, hbehind⟩ := ih
    refine ⟨?_, hlast, hbehind⟩
    have hfirst : delivery s 0 = .token t := h
    have hnext : delivery s ∘ Nat.succ = delivery (TokenSource.pull s).2 :=
      funext (TokenSource.delivery_succ s)
    rw [List.length_cons, List.range_succ_eq_map, List.map_cons, List.map_map, hfirst, hnext,
      htokens, List.map_cons]

theorem Gathers.isLeast (h : Gathers s ts last s') :
    IsLeast {i | (delivery s i).isEnd = true} ts.length := by
  obtain ⟨htokens, hlast, -⟩ := h.deliveries
  refine ⟨?_, fun i hi => Nat.le_of_not_lt fun hlt => ?_⟩
  · rw [Set.mem_ofPred_eq, hlast]
    exact h.isEnd
  · have hget : delivery s i = .token ts[i] := by
      have := congrArg (·[i]?) htokens
      simpa [hlt] using this
    have hend : (delivery s i).isEnd = false :=
      Pulled.isEnd_eq_false_iff.mpr ⟨_, hget, h.tokens _ (List.getElem_mem hlt)⟩
    rw [Set.mem_ofPred_eq, hend] at hi
    cases hi

end Deliveries

/-! ## Channels that fill up -/

theorem textOf_cons (t : Token) (ts : List Token) : textOf (t :: ts) = t.text ++ textOf ts :=
  String.join_cons

theorem textOf_append (ts us : List Token) : textOf (ts ++ us) = textOf ts ++ textOf us := by
  rw [textOf, List.map_append, String.join_append]
  rfl

namespace Channel

/-- The channel behind the texts of tokens that are written one by one. -/
def shown (c : Channel) (ts : List Token) : Channel :=
  ts.foldl (fun c t => (c.write t.text).2) c

/-- Why the channel does not take the text of the token with this index behind those before it. -/
def faultAt (c : Channel) (ts : List Token) (i : Nat) : Option ChannelError :=
  ts[i]?.bind fun t => ((c.shown (ts.take i)).write t.text).1

/-- The channel takes the texts of all tokens. -/
def Shows (c : Channel) (ts : List Token) : Prop := ∀ i, c.faultAt ts i = none

/-- The first text that the channel does not take is that of the token with this index. -/
structure Tears (c : Channel) (ts : List Token) (i : Nat) (e : ChannelError) : Prop where
  before : ∀ j < i, c.faultAt ts j = none
  fault : c.faultAt ts i = some e

section Shown

variable (c : Channel) (s : String) {ts : List Token} {t : Token} {i : Nat} {e : ChannelError}

theorem write_held :
    ∃ held rest, (c.write s).2.written = c.written ++ held ∧ held ++ rest = s.toByteArray ∧
      ((c.write s).1 = none ↔ rest = .empty) := by
  cases hroom : c.room? with
  | none => exact ⟨s.toByteArray, .empty, by simp [write, hroom]⟩
  | some room =>
    by_cases hfits : s.toByteArray.size ≤ room
    · refine ⟨s.toByteArray, .empty, ?_⟩
      simp only [write, hroom, String.toUTF8_eq_toByteArray, if_pos hfits, ByteArray.append_empty,
        and_self]
    · refine ⟨s.toByteArray.extract 0 room, s.toByteArray.extract room s.toByteArray.size,
        ?_, ?_, ?_⟩
      · simp only [write, hroom, String.toUTF8_eq_toByteArray, if_neg hfits]
      · rw [← ByteArray.extract_eq_extract_append_extract _ (Nat.zero_le _) (by omega),
          ByteArray.extract_zero_size]
      · simp only [write, hroom, String.toUTF8_eq_toByteArray, if_neg hfits]
        refine iff_of_false (by simp) fun hrest => ?_
        have hsize := congrArg ByteArray.size hrest
        rw [ByteArray.size_extract, ByteArray.size_empty] at hsize
        omega

theorem written_of_write (h : (c.write s).1 = none) :
    (c.write s).2.written = c.written ++ s.toByteArray := by
  obtain ⟨held, rest, hwritten, hheld, hfault⟩ := c.write_held s
  rw [hwritten, ← hheld, hfault.mp h, ByteArray.append_empty]

variable {c}

theorem Shows.head (h : c.Shows (t :: ts)) : (c.write t.text).1 = none := h 0

theorem Shows.tail (h : c.Shows (t :: ts)) : (c.write t.text).2.Shows ts := fun i => h (i + 1)

theorem Tears.head (h : c.Tears (t :: ts) (i + 1) e) : (c.write t.text).1 = none :=
  h.before 0 (Nat.succ_pos i)

theorem Tears.tail (h : c.Tears (t :: ts) (i + 1) e) : (c.write t.text).2.Tears ts i e :=
  ⟨fun j hj => h.before (j + 1) (Nat.succ_lt_succ hj), h.fault⟩

theorem Tears.shows_take (h : c.Tears ts i e) : c.Shows (ts.take i) := by
  intro j
  by_cases hj : j < i
  · rw [faultAt, List.getElem?_take_of_lt hj, List.take_take, Nat.min_eq_left (Nat.le_of_lt hj)]
    exact h.before j hj
  · rw [faultAt, List.getElem?_eq_none (by rw [List.length_take]; omega)]
    rfl

/-- **Texts that are all taken are taken as one.** -/
theorem write_textOf (h : c.Shows ts) :
    c.write (textOf ts) = (none, c.shown ts) := by
  induction ts generalizing c with
  | nil => exact write_empty c
  | cons t ts ih =>
    have hfirst : (c.write t.text).1 = none := h.head
    rw [textOf_cons, write_append, ← Prod.eta (c.write t.text), hfirst]
    exact ih h.tail

theorem Shows.written (h : c.Shows ts) :
    (c.shown ts).written = c.written ++ (textOf ts).toByteArray := by
  have hwrite := write_textOf h
  have hwritten := c.written_of_write (textOf ts) (by rw [hwrite])
  rwa [hwrite] at hwritten

/-- **At the first fault a channel holds all texts in front of it** and less than the one that it
does not take. -/
theorem Tears.written (h : c.Tears ts i e) :
    ∃ held rest, (c.shown (ts.take (i + 1))).written = c.written ++ held ∧
      held ++ rest = (textOf ts).toByteArray ∧ (textOf (ts.take i)).utf8ByteSize ≤ held.size ∧
        held.size < (textOf (ts.take (i + 1))).utf8ByteSize := by
  obtain ⟨t, ht, hfault⟩ := Option.bind_eq_some_iff.mp h.fault
  have hbefore := h.shows_take.written
  obtain ⟨held, rest, hwritten, hheld, hnone⟩ := (c.shown (ts.take i)).write_held t.text
  have htake : ts.take (i + 1) = ts.take i ++ [t] := by
    rw [List.take_add_one, ht]
    rfl
  have hnext : textOf (ts.take (i + 1)) = textOf (ts.take i) ++ t.text := by
    rw [htake, textOf_append, textOf_cons]
    exact congrArg _ String.append_empty
  have hshown : c.shown (ts.take (i + 1)) = ((c.shown (ts.take i)).write t.text).2 := by
    rw [htake, shown, List.foldl_append]
    rfl
  have hsize : held.size < t.text.utf8ByteSize := by
    have hrest : rest.size ≠ 0 := by
      rw [ne_eq, ByteArray.size_eq_zero_iff, ← hnone, hfault]
      simp
    have := congrArg ByteArray.size hheld
    rw [ByteArray.size_append, String.size_toByteArray] at this
    omega
  refine ⟨(textOf (ts.take i)).toByteArray ++ held, rest ++ (textOf (ts.drop (i + 1))).toByteArray,
    ?_, ?_, ?_, ?_⟩
  · rw [hshown, hwritten, hbefore, ByteArray.append_assoc]
  · have htexts : textOf ts = textOf (ts.take i) ++ t.text ++ textOf (ts.drop (i + 1)) := by
      rw [← hnext, ← textOf_append, List.take_append_drop]
    rw [htexts, String.toByteArray_append, String.toByteArray_append, ← hheld]
    simp only [ByteArray.append_assoc]
  · rw [ByteArray.size_append, String.size_toByteArray]
    exact Nat.le_add_right _ _
  · rw [ByteArray.size_append, String.size_toByteArray, hnext, String.utf8ByteSize_append]
    exact Nat.add_lt_add_left hsize _

end Shown

end Channel

/-! ## Collecting -/

section Collecting

variable {σ : Type} [TokenSource σ] {s s' : σ} {ts : List Token} {t : Token} {last : Pulled}
  {text : String} {count i : Nat} {echo? : Option Channel} {c : Channel} {e : ChannelError}

theorem echoText_some (c : Channel) (s : String) :
    echoText (some c) s = ((c.write s).1, some (c.write s).2) := rfl

theorem collectFrom_next (h : (TokenSource.pull s).1 = .token t) (hkind : t.kind ≠ .endOfInput)
    (hshow : ∀ c ∈ echo?, (c.write t.text).1 = none) :
    collectFrom text count s echo? =
      collectFrom (text ++ t.text) (count + 1) (TokenSource.pull s).2
        (echo?.map fun c => (c.write t.text).2) := by
  rw [collectFrom_token h, if_neg hkind]
  cases echo? with
  | none => rfl
  | some c =>
    rw [echoText_some, hshow c rfl]
    rfl

theorem collectFrom_fault (h : (TokenSource.pull s).1 = .token t) (hkind : t.kind ≠ .endOfInput)
    (hfault : (c.write t.text).1 = some e) :
    collectFrom text count s (some c) =
      ⟨.error (.channel e), (TokenSource.pull s).2, some (c.write t.text).2, []⟩ := by
  rw [collectFrom_token h, if_neg hkind, echoText_some, hfault]

/-- **While every token is shown, all texts in front of the end are collected.** -/
theorem collectFrom_shown (h : Gathers s ts last s') (text : String) (count : Nat)
    (hshow : ∀ c ∈ echo?, c.Shows ts) :
    collectFrom text count s echo? =
      collectedAt last (text ++ textOf ts) (count + ts.length) s' (echo?.map (·.shown ts)) := by
  induction h generalizing text count echo? with
  | stop h =>
    rw [collectFrom_end h]
    simp [textOf, Channel.shown]
  | @more s s' t ts last h hkind hrest ih =>
    have hnext : ∀ c ∈ echo?.map fun c => (c.write t.text).2, c.Shows ts := by
      intro c' hc'
      obtain ⟨c, hc, rfl⟩ := Option.map_eq_some_iff.mp hc'
      exact (hshow c hc).tail
    rw [collectFrom_next h hkind fun c hc => (hshow c hc).head, ih _ _ hnext, textOf_cons,
      String.append_assoc, List.length_cons, Nat.add_right_comm, Nat.add_assoc, Option.map_map]
    rfl

/-- **The first token that is not shown stops the collecting**, and no pull is made behind it. -/
theorem collectFrom_tears (h : Gathers s ts last s') (text : String) (count : Nat)
    (htears : c.Tears ts i e) :
    collectFrom text count s (some c) =
      ⟨.error (.channel e), behind s (i + 1), some (c.shown (ts.take (i + 1))), []⟩ := by
  induction h generalizing text count c i with
  | stop h => cases htears.fault
  | @more s s' t ts last h hkind hrest ih =>
    cases i with
    | zero => exact collectFrom_fault h hkind htears.fault
    | succ i =>
      have hfirst : ∀ c' ∈ some c, (c'.write t.text).1 = none := by
        rintro c' ⟨⟩
        exact htears.head
      rw [collectFrom_next h hkind hfirst]
      exact ih _ _ htears.tail

/-- What is shown on a channel that takes all of it, and that need not be flushed or can be, is
collected. -/
theorem collect_shown (h : Gathers s ts last s') (hshow : ∀ c ∈ echo?, c.Shows ts)
    (hflush : ∀ c ∈ echo?, last.error? = none → (c.shown ts).flush = none) :
    collect s echo? =
      ⟨gatheredText ts last, s', echo?.map (·.shown ts), gatheredLog ts last⟩ := by
  rw [collect, collectFrom_shown h "" 0 hshow, String.empty_append, Nat.zero_add, collectedAt,
    gatheredText, gatheredLog]
  cases herror : last.error? with
  | some e => rfl
  | none =>
    have hopen : (echo?.map (·.shown ts)).bind Channel.flush = none := by
      cases echo? with
      | none => rfl
      | some c => exact hflush c rfl herror
    dsimp only
    rw [collectEnd, hopen]

/-- The end is no end for a channel that cannot be flushed there. -/
theorem collect_unflushed (h : Gathers s ts last s') (hshow : c.Shows ts)
    (herror : last.error? = none) (hflush : (c.shown ts).flush = some e) :
    collect s (some c) = ⟨.error (.channel e), s', some (c.shown ts), []⟩ := by
  have hshow' : ∀ c' ∈ some c, c'.Shows ts := by
    rintro c' ⟨⟩
    exact hshow
  rw [collect, collectFrom_shown h "" 0 hshow', collectedAt, herror]
  dsimp only [Option.map_some]
  rw [collectEnd, Option.bind_some, hflush]

end Collecting

/-- **Collecting pulls up to the first end**, a token that says so, the end of the source or an
error, and no further. The tokens in front of it are collected, whether or not they are shown, if
all of them can be and the channel can be flushed; behind an error it need not be. A channel that
takes all texts holds just these, and one that does not holds the front of them: then the pull of
the first token that it does not take is the last one. -/
theorem collect_drains {σ : Type} [TokenSource σ] (s : σ) (echo? : Option Channel) :
    ∃ k ts, IsLeast {i | (delivery s i).isEnd = true} k ∧
      (List.range k).map (delivery s) = ts.map .token ∧
      let done := collect s echo?
      let last := delivery s k
      ((∀ c ∈ echo?, c.Shows ts ∧ (last.error? = none → (c.shown ts).flush = none)) →
        done = ⟨gatheredText ts last, behind s (k + 1), echo?.map (·.shown ts),
          gatheredLog ts last⟩) ∧
      (∀ c ∈ echo?, c.Shows ts →
        (c.shown ts).written = c.written ++ (textOf ts).toByteArray ∧
          ∀ e, (c.shown ts).flush = some e → last.error? = none →
            done = ⟨.error (.channel e), behind s (k + 1), some (c.shown ts), []⟩) ∧
      (∀ c ∈ echo?, ∀ i e, c.Tears ts i e →
        ∃ out held rest, done = ⟨.error (.channel e), behind s (i + 1), some out, []⟩ ∧
          out.written = c.written ++ held ∧ held ++ rest = (textOf ts).toByteArray ∧
            (textOf (ts.take i)).utf8ByteSize ≤ held.size ∧
              held.size < (textOf (ts.take (i + 1))).utf8ByteSize) ∧
      ∀ meter : σ → Nat, (∀ s, meter (TokenSource.pull s).2 = meter s + 1) →
        ∀ n, meter (behind s n) = meter s + n := by
  obtain ⟨ts, last, s', h⟩ := exists_gathers s
  obtain ⟨htokens, hlast, hbehind⟩ := h.deliveries
  refine ⟨ts.length, ts, h.isLeast, htokens, ?_⟩
  rw [hlast, hbehind]
  refine ⟨fun hfine => ?_, fun c hc hshow => ⟨hshow.written, fun e hflush herror => ?_⟩,
    fun c hc i e htears => ?_, fun meter hmeter n => TokenSource.meter_behind s hmeter n⟩
  · exact collect_shown h (fun c hc => (hfine c hc).1) fun c hc => (hfine c hc).2
  · obtain rfl : echo? = some c := hc
    exact collect_unflushed h hshow herror hflush
  · obtain rfl : echo? = some c := hc
    obtain ⟨held, rest, hwritten⟩ := htears.written
    exact ⟨_, held, rest, collectFrom_tears h "" 0 htears, hwritten⟩

end GoldenCheck
