import GoldenCheck.Check.Directive
import GoldenCheck.Proofs.Token.Extents

/-!
# The grammar of a check file

What a line says is told by its first characters: each directive with a payload is written in one
way, up to the character in front of the payload. No line has two readings, and none is left out.

* `Text.trim_eq_iff`: trimming leaves a word iff only blank characters are around it;
* `Directive.Grammar`: the rules of the language, one for each kind of line;
* **`Directive.ofLine?_eq_iff`**: a line is read by its rule; `Directive.grammar_forbidden_iff` and
  its likes: the form of the lines that a rule reads;
* `Directive.payload?`, `Directive.payload_bytes`: where a payload begins, in characters and bytes;
* **`Directive.ofLine?_exact`**.
-/

namespace GoldenCheck

open String (utf8Len)

/-! ## Trimming -/

namespace Text

/-- The text is the word with only blank characters around it. -/
def TrimsTo (cs w : List Char) : Prop :=
  ∃ left right, cs = left ++ w ++ right ∧ ∀ c ∈ left ++ right, isBlank c = true

theorem trimsTo_trim (cs : List Char) : TrimsTo cs (trim cs) := by
  let kept := cs.dropWhile isBlank
  have hkept : trim cs ++ (kept.reverse.takeWhile isBlank).reverse = kept := by
    rw [trim, ← List.reverse_append, List.takeWhile_append_dropWhile, List.reverse_reverse]
  refine ⟨cs.takeWhile isBlank, (kept.reverse.takeWhile isBlank).reverse, ?_, fun c hc => ?_⟩
  · rw [List.append_assoc, hkept, List.takeWhile_append_dropWhile]
  · rcases List.mem_append.mp hc with hc | hc
    · exact List.mem_takeWhile_imp hc
    · exact List.mem_takeWhile_imp (List.mem_reverse.mp hc)

theorem dropWhile_isBlank {left w : List Char} (hleft : ∀ c ∈ left, isBlank c = true)
    (hw : ∀ c ∈ w.head?, isBlank c = false) : (left ++ w).dropWhile isBlank = w := by
  rw [List.dropWhile_append_of_pos hleft]
  cases w with
  | nil => rfl
  | cons c w => exact List.dropWhile_cons_of_neg (by simp [hw c rfl])

/-- **Trimming leaves a word iff only blank characters are around it.** -/
theorem trim_eq_iff {cs w : List Char} (hne : w ≠ [])
    (hfirst : ∀ c ∈ w.head?, isBlank c = false) (hlast : ∀ c ∈ w.getLast?, isBlank c = false) :
    trim cs = w ↔ TrimsTo cs w := by
  constructor
  · rintro rfl
    exact trimsTo_trim cs
  · rintro ⟨left, right, rfl, hblank⟩
    obtain ⟨hleft, hright⟩ := List.forall_mem_append.mp hblank
    have hfront : (left ++ w ++ right).dropWhile isBlank = w ++ right := by
      rw [List.append_assoc]
      refine dropWhile_isBlank hleft fun c hc => hfirst c ?_
      rwa [List.head?_append_of_ne_nil _ hne] at hc
    have hback : (right.reverse ++ w.reverse).dropWhile isBlank = w.reverse := by
      refine dropWhile_isBlank (fun c hc => hright c (List.mem_reverse.mp hc)) fun c hc => ?_
      rw [List.head?_reverse] at hc
      exact hlast c hc
    rw [trim, hfront, List.reverse_append, hback, List.reverse_reverse]

end Text

/-! ## Rules -/

namespace Directive

/-- The line begins with none of the marks. -/
def Unmarked (line : String) : Prop := ∀ mark ∈ line.toList.head?, mark ∉ ['!', '*', '+']

/-- The rules by which a line is read, as a directive or as malformed. -/
inductive Grammar : String → Option Directive → Prop
  | forbidden (gap : Char) (payload : String) :
    Grammar ("!" ++ String.singleton gap ++ payload) (some (.forbidden payload))
  | contains (gap : Char) (payload : String) :
    Grammar ("*" ++ String.singleton gap ++ payload) (some (.contains payload))
  | countExact {n : Nat} (hn : n < 10) (gap : Char) (payload : String) :
    Grammar ("+" ++ String.singleton n.digitChar ++ String.singleton gap ++ payload)
      (some (.countExact n payload))
  | bare {line : String} (h : line = "!" ∨ line = "*") : Grammar line none
  | short {line : String} (hmark : line.toList.head? = some '+') (hlen : line.length < 3) :
    Grammar line none
  | uncounted {line : String} {d : Char} (hmark : line.toList.head? = some '+')
      (hd : line.toList[1]? = some d) (hdigit : d.isDigit = false) : Grammar line none
  | print {line : String} (hmark : Unmarked line)
      (hword : Text.TrimsTo line.toList "print".toList) : Grammar line (some .print)
  | ignored {line : String} (hmark : Unmarked line)
      (hword : ¬ Text.TrimsTo line.toList "print".toList) : Grammar line (some .ignored)

section Rules

variable {line : String} {o : Option Directive} {c : Char} {n : Nat}

theorem digit?_eq (c : Char) :
    digit? c = if c.isDigit then some (c.toNat - '0'.toNat) else none := by
  have hiff : ('0' ≤ c ∧ c ≤ '9') ↔ c.isDigit = true := by
    rw [Char.isDigit_iff_toNat]
    exact Iff.rfl
  simp only [digit?, hiff]

theorem digit?_eq_none_iff : digit? c = none ↔ c.isDigit = false := by
  simp [digit?_eq]

theorem digit?_eq_some_iff : digit? c = some n ↔ n < 10 ∧ c = n.digitChar := by
  rw [digit?_eq]
  constructor
  · intro h
    split at h
    · next hdigit =>
      obtain ⟨hlow, hhigh⟩ := Char.isDigit_iff_toNat.mp hdigit
      have hzero : '0'.toNat = 48 := rfl
      have hnine : '9'.toNat = 57 := rfl
      have hn : c.toNat - '0'.toNat = n := Option.some.inj h
      have hlt : n < 10 := by omega
      refine ⟨hlt, Char.toNat_inj.mp ?_⟩
      rw [Nat.toNat_digitChar_of_lt_ten hlt]
      omega
    · cases h
  · rintro ⟨hlt, rfl⟩
    have hdigit : n.digitChar.isDigit = true := by
      rw [Nat.isDigit_digitChar, decide_eq_true hlt]
    have hvalue : n.digitChar.toNat - '0'.toNat = n := Nat.toNat_digitChar_sub_48_of_lt_ten hlt
    rw [if_pos hdigit, hvalue]

theorem trim_eq_print_iff :
    Text.trim line.toList = "print".toList ↔ Text.TrimsTo line.toList "print".toList :=
  Text.trim_eq_iff (by decide) (by rintro c ⟨⟩; decide) (by rintro c ⟨⟩; decide)

theorem ofLine?_of_unmarked (h : Unmarked line) :
    ofLine? line =
      some (if Text.trim line.toList = "print".toList then .print else .ignored) := by
  unfold ofLine?
  split <;> simp_all [Unmarked]

theorem grammar_ofLine? (line : String) : Grammar line (ofLine? line) := by
  unfold ofLine?
  split
  · next gap payload h =>
    have hline : line = "!" ++ String.singleton gap ++ String.ofList payload :=
      String.toList_inj.mp (by simp [h])
    rw [hline]
    exact .forbidden gap _
  · next h => exact .bare (.inl (String.toList_inj.mp (by simp [h])))
  · next gap payload h =>
    have hline : line = "*" ++ String.singleton gap ++ String.ofList payload :=
      String.toList_inj.mp (by simp [h])
    rw [hline]
    exact .contains gap _
  · next h => exact .bare (.inr (String.toList_inj.mp (by simp [h])))
  · next d gap payload h =>
    cases hd : digit? d with
    | none => exact .uncounted (by rw [h]; rfl) (by rw [h]; rfl) (digit?_eq_none_iff.mp hd)
    | some n =>
      obtain ⟨hn, rfl⟩ := digit?_eq_some_iff.mp hd
      have hline : line = "+" ++ String.singleton n.digitChar ++ String.singleton gap ++
          String.ofList payload := String.toList_inj.mp (by simp [h])
      rw [hline]
      exact .countExact hn gap _
  · next rest hlong h =>
    refine .short (by rw [h]; rfl) ?_
    rw [← String.length_toList, h]
    rcases rest with _ | ⟨d, _ | ⟨gap, payload⟩⟩
    · simp
    · simp
    · exact (hlong d gap payload rfl).elim
  · next hforbidden hbang hcontains hstar hcount hplus =>
    have hmark : Unmarked line := by
      intro c hc hmark
      obtain ⟨cs, hline⟩ := List.head?_eq_some_iff.mp hc
      simp only [List.mem_cons, List.not_mem_nil, or_false] at hmark
      rcases hmark with rfl | rfl | rfl
      · cases cs with
        | nil => exact hbang hline
        | cons => exact hforbidden _ _ hline
      · cases cs with
        | nil => exact hstar hline
        | cons => exact hcontains _ _ hline
      · exact hplus _ hline
    split
    · next htrim => exact .print hmark (trim_eq_print_iff.mp htrim)
    · next htrim => exact .ignored hmark (mt trim_eq_print_iff.mpr htrim)

theorem Grammar.eq (h : Grammar line o) : ofLine? line = o := by
  cases h with
  | forbidden gap payload => simp [ofLine?]
  | contains gap payload => simp [ofLine?]
  | countExact hn gap payload => simp [ofLine?, digit?_eq_some_iff.mpr ⟨hn, rfl⟩]
  | bare h => rcases h with rfl | rfl <;> simp [ofLine?]
  | short hmark hlen =>
    obtain ⟨rest, hline⟩ := List.head?_eq_some_iff.mp hmark
    rw [← String.length_toList, hline] at hlen
    rcases rest with _ | ⟨d, _ | ⟨gap, payload⟩⟩
    · simp [ofLine?, hline]
    · simp [ofLine?, hline]
    · simp only [List.length_cons] at hlen
      omega
  | uncounted hmark hd hdigit =>
    obtain ⟨rest, hline⟩ := List.head?_eq_some_iff.mp hmark
    rw [hline] at hd
    rcases rest with _ | ⟨d, _ | ⟨gap, payload⟩⟩
    · cases hd
    · simp [ofLine?, hline]
    · obtain rfl := Option.some.inj hd
      simp [ofLine?, hline, digit?_eq_none_iff.mpr hdigit]
  | print hmark hword => rw [ofLine?_of_unmarked hmark, if_pos (trim_eq_print_iff.mpr hword)]
  | ignored hmark hword =>
    rw [ofLine?_of_unmarked hmark, if_neg (mt trim_eq_print_iff.mp hword)]

/-- **A line is read by its rule.** -/
theorem ofLine?_eq_iff : ofLine? line = o ↔ Grammar line o :=
  ⟨fun h => h ▸ grammar_ofLine? line, Grammar.eq⟩

end Rules

/-! ## Forms of lines -/

section Forms

variable {line payload : String} {n : Nat}

theorem grammar_forbidden_iff :
    Grammar line (some (.forbidden payload)) ↔
      ∃ gap, line = "!" ++ String.singleton gap ++ payload := by
  constructor
  · intro h
    cases h with
    | forbidden gap => exact ⟨gap, rfl⟩
  · rintro ⟨gap, rfl⟩
    exact .forbidden gap payload

theorem grammar_contains_iff :
    Grammar line (some (.contains payload)) ↔
      ∃ gap, line = "*" ++ String.singleton gap ++ payload := by
  constructor
  · intro h
    cases h with
    | contains gap => exact ⟨gap, rfl⟩
  · rintro ⟨gap, rfl⟩
    exact .contains gap payload

theorem grammar_countExact_iff :
    Grammar line (some (.countExact n payload)) ↔
      n < 10 ∧ ∃ gap,
        line = "+" ++ String.singleton n.digitChar ++ String.singleton gap ++ payload := by
  constructor
  · intro h
    cases h with
    | countExact hn gap => exact ⟨hn, gap, rfl⟩
  · rintro ⟨hn, gap, rfl⟩
    exact .countExact hn gap payload

theorem grammar_none_iff :
    Grammar line none ↔
      line = "!" ∨ line = "*" ∨
        line.toList.head? = some '+' ∧
          (line.length < 3 ∨ ∃ d, line.toList[1]? = some d ∧ d.isDigit = false) := by
  constructor
  · intro h
    cases h with
    | bare h => exact h.imp_right .inl
    | short hmark hlen => exact .inr (.inr ⟨hmark, .inl hlen⟩)
    | uncounted hmark hd hdigit => exact .inr (.inr ⟨hmark, .inr ⟨_, hd, hdigit⟩⟩)
  · rintro (h | h | ⟨hmark, hlen | ⟨d, hd, hdigit⟩⟩)
    · exact .bare (.inl h)
    · exact .bare (.inr h)
    · exact .short hmark hlen
    · exact .uncounted hmark hd hdigit

theorem grammar_print_iff :
    Grammar line (some .print) ↔
      Unmarked line ∧ Text.TrimsTo line.toList "print".toList := by
  constructor
  · intro h
    cases h with
    | print hmark hword => exact ⟨hmark, hword⟩
  · rintro ⟨hmark, hword⟩
    exact .print hmark hword

theorem grammar_ignored_iff :
    Grammar line (some .ignored) ↔
      Unmarked line ∧ ¬ Text.TrimsTo line.toList "print".toList := by
  constructor
  · intro h
    cases h with
    | ignored hmark hword => exact ⟨hmark, hword⟩
  · rintro ⟨hmark, hword⟩
    exact .ignored hmark hword

end Forms

/-! ## Payloads -/

/-- How many characters stand in front of the payload, and the payload. -/
def payload? : Directive → Option (Nat × String)
  | forbidden payload => some (2, payload)
  | contains payload => some (2, payload)
  | countExact _ payload => some (3, payload)
  | print => none
  | ignored => none

section Payload

variable {line payload : String} {d : Directive} {offset : Nat}

theorem Grammar.behind (h : Grammar line (some d)) (hp : d.payload? = some (offset, payload)) :
    ∃ front : String, line = front ++ payload ∧ front.length = offset := by
  cases h with
  | forbidden gap | contains gap =>
    cases hp
    refine ⟨_, rfl, ?_⟩
    rw [String.length_append, String.length_singleton]
    rfl
  | countExact hn gap =>
    cases hp
    refine ⟨_, rfl, ?_⟩
    rw [String.length_append, String.length_append, String.length_singleton,
      String.length_singleton]
    rfl
  | print | ignored => cases hp

theorem payload_bytes (h : ofLine? line = some d) (hp : d.payload? = some (offset, payload)) :
    let start := utf8Len (line.toList.take offset)
    String.Pos.Raw.IsValid line ⟨start⟩ ∧
      line.toByteArray.extract start line.utf8ByteSize = payload.toByteArray := by
  intro start
  obtain ⟨front, rfl, rfl⟩ := (ofLine?_eq_iff.mp h).behind hp
  have hlist : (front ++ payload).toList = front.toList ++ payload.toList :=
    String.toList_append
  have htake : (front ++ payload).toList.take front.length = front.toList := by
    rw [hlist, ← String.length_toList, List.take_left]
  have hstart : start = front.utf8ByteSize := by
    rw [← String.utf8Len_toList, ← htake]
  refine ⟨?_, ?_⟩
  · rw [hstart, ← String.utf8Len_toList]
    exact isValid_of_append hlist
  · rw [hstart, String.utf8ByteSize_append, String.toByteArray_append]
    exact ByteArray.extract_append_eq_right String.size_toByteArray.symm (by simp)

end Payload

/-- **A line is a directive iff it is written as one.** Every payload stands behind one character
that may be any, and is what it is, whatever it contains; a count is one digit. A line that begins
with a mark and is written in no such way is malformed, and all others are looked at for the word
that shows the output, with the blank characters around it left out. Payloads are counted off by
characters, and so begin between two of them. -/
theorem ofLine?_exact (line : String) :
    (∀ payload, ofLine? line = some (.forbidden payload) ↔
      ∃ gap, line = "!" ++ String.singleton gap ++ payload) ∧
    (∀ payload, ofLine? line = some (.contains payload) ↔
      ∃ gap, line = "*" ++ String.singleton gap ++ payload) ∧
    (∀ n payload, ofLine? line = some (.countExact n payload) ↔
      n < 10 ∧ ∃ gap,
        line = "+" ++ String.singleton n.digitChar ++ String.singleton gap ++ payload) ∧
    (ofLine? line = none ↔
      line = "!" ∨ line = "*" ∨
        line.toList.head? = some '+' ∧
          (line.length < 3 ∨ ∃ d, line.toList[1]? = some d ∧ d.isDigit = false)) ∧
    (ofLine? line = some .print ↔
      Unmarked line ∧ Text.TrimsTo line.toList "print".toList) ∧
    (ofLine? line = some .ignored ↔
      Unmarked line ∧ ¬ Text.TrimsTo line.toList "print".toList) ∧
    ∀ d offset payload, ofLine? line = some d → d.payload? = some (offset, payload) →
      let start := utf8Len (line.toList.take offset)
      String.Pos.Raw.IsValid line ⟨start⟩ ∧
        line.toByteArray.extract start line.utf8ByteSize = payload.toByteArray := by
  refine ⟨fun payload => ?_, fun payload => ?_, fun n payload => ?_, ?_, ?_, ?_,
    fun d offset payload h hp => payload_bytes h hp⟩
  · exact ofLine?_eq_iff.trans grammar_forbidden_iff
  · exact ofLine?_eq_iff.trans grammar_contains_iff
  · exact ofLine?_eq_iff.trans grammar_countExact_iff
  · exact ofLine?_eq_iff.trans grammar_none_iff
  · exact ofLine?_eq_iff.trans grammar_print_iff
  · exact ofLine?_eq_iff.trans grammar_ignored_iff

example : ofLine? "+2 +3 é" = some (.countExact 2 "+3 é") := by decide +kernel

end Directive

end GoldenCheck
