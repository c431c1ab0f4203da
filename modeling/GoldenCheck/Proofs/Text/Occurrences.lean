import GoldenCheck.Proofs.Token.Extents
import GoldenCheck.Text.Basic
import Mathlib.Data.Finset.Card
import Mathlib.Data.Finset.Max
import Mathlib.Data.List.Pairwise
import Mathlib.Order.Bounds.Basic

/-!
# The best choice of occurrences

Counting takes matches from the left and goes on behind each. What it counts are matches of bytes,
none of which begins within a character, and no choice of occurrences that do not overlap has more
of them.

* `Text.OccursAt`: the bytes of a needle stand at an offset; **`occursAt_behind`**: then its
  characters do;
* `Text.Leftmost`: the matches that are taken, told by the bytes of the text alone;
* `Text.Apart`: a choice of occurrences, no two of which overlap;
* **`exists_leftmost`**: counting counts the leftmost matches; `Leftmost.unique`;
* **`Leftmost.card_le`**, `isGreatest_occurrences`: no other choice has more.
-/

namespace GoldenCheck.Text

open String (utf8Len)

/-! ## Matches of bytes -/

/-- The bytes of the needle stand in the text at this offset. -/
def OccursAt (needle text : String) (i : Nat) : Prop :=
  text.toByteArray.extract i (i + needle.utf8ByteSize) = needle.toByteArray

section OccursAt

variable {needle text : String} {i j : Nat}

theorem OccursAt.le (hne : needle ≠ "") (h : OccursAt needle text i) :
    i + needle.utf8ByteSize ≤ text.utf8ByteSize := by
  have hpos : needle.utf8ByteSize ≠ 0 := mt String.utf8ByteSize_eq_zero_iff.mp hne
  have hsize := congrArg ByteArray.size h
  rw [ByteArray.size_extract, String.size_toByteArray, String.size_toByteArray] at hsize
  omega

theorem OccursAt.liesIn (hne : needle ≠ "") (h : OccursAt needle text i) :
    Span.LiesIn text ⟨i, i + needle.utf8ByteSize⟩ := by
  have hle := h.le hne
  have hpos : needle.utf8ByteSize ≠ 0 := mt String.utf8ByteSize_eq_zero_iff.mp hne
  have hvalid : (text.toByteArray.extract i (i + needle.utf8ByteSize)).IsValidUTF8 := by
    rw [h]
    exact needle.isValidUTF8
  rcases (String.Pos.Raw.isValidUTF8_extract_iff ⟨i⟩ ⟨i + needle.utf8ByteSize⟩
    (Nat.le_add_right _ _) hle).mp hvalid with hsame | ⟨hstart, hstop⟩
  · have := congrArg String.Pos.Raw.byteIdx hsame
    simp only at this
    omega
  · exact .of_ends (Nat.le_add_right _ _) hstart hstop

/-- **A match of bytes is a match of characters.** -/
theorem occursAt_behind (hne : needle ≠ "") {front cs : List Char}
    (htext : text.toList = front ++ cs) :
    OccursAt needle text (utf8Len front) ↔ needle.toList <+: cs := by
  have hfront : utf8Len front = front.utf8Encode.size := by
    rw [← String.utf8ByteSize_ofList, ← String.size_toByteArray, String.toByteArray_ofList]
  have hbytes : text.toByteArray = front.utf8Encode ++ cs.utf8Encode := by
    rw [← String.utf8Encode_toList, htext, List.utf8Encode_append]
  have hcut : text.toByteArray.extract (utf8Len front) (utf8Len front + needle.utf8ByteSize) =
      cs.utf8Encode.extract 0 needle.utf8ByteSize := by
    have hextract := ByteArray.extract_append_size_add' (a := front.utf8Encode)
      (b := cs.utf8Encode) (i := 0) (j := needle.utf8ByteSize) hfront
    rwa [← hbytes, Nat.add_zero] at hextract
  constructor
  · intro h
    have hle := h.le hne
    have hsize := congrArg ByteArray.size hbytes
    rw [ByteArray.size_append, ← hfront, String.size_toByteArray] at hsize
    rw [OccursAt, hcut] at h
    refine List.isPrefix_of_utf8Encode_append_eq_utf8Encode
      (cs.utf8Encode.extract needle.utf8ByteSize cs.utf8Encode.size) ?_
    rw [String.utf8Encode_toList, ← h, ← ByteArray.extract_eq_extract_append_extract _
      (Nat.zero_le _) (by omega), ByteArray.extract_zero_size]
  · rintro ⟨behind, rfl⟩
    rw [OccursAt, hcut, List.utf8Encode_append, String.utf8Encode_toList,
      ByteArray.extract_append_eq_left String.size_toByteArray.symm]

theorem OccursAt.cut (hne : needle ≠ "") (h : OccursAt needle text i) :
    ∃ front cs, text.toList = front ++ cs ∧ i = utf8Len front ∧ needle.toList <+: cs := by
  obtain ⟨before, behind, htext, hi⟩ :=
    String.Pos.Raw.isValid_iff_exists_append.mp (h.liesIn hne).start
  have hlen : i = utf8Len before.toList := by
    rw [String.utf8Len_toList]
    exact congrArg String.Pos.Raw.byteIdx hi
  have hlist : text.toList = before.toList ++ behind.toList := by
    rw [htext, String.toList_append]
  refine ⟨_, _, hlist, hlen, (occursAt_behind hne hlist).mp ?_⟩
  rwa [← hlen]

theorem OccursAt.not_within (hne : needle ≠ "") (h : OccursAt needle text i) {front cs : List Char}
    {c : Char} (htext : text.toList = front ++ c :: cs) (hlt : utf8Len front < i) :
    utf8Len (front ++ [c]) ≤ i := by
  obtain ⟨front', cs', htext', rfl, -⟩ := h.cut hne
  rcases List.append_eq_append_iff.mp (htext.symm.trans htext') with
    ⟨more, rfl, hmore⟩ | ⟨more, rfl, -⟩
  · cases more with
    | nil => simp at hlt
    | cons d more =>
      obtain ⟨rfl, -⟩ := List.cons.inj hmore
      rw [List.append_cons front c more, String.utf8Len_append (front ++ [c])]
      exact Nat.le_add_right _ _
  · rw [String.utf8Len_append] at hlt
    omega

end OccursAt

/-! ## Leftmost matches -/

/-- The matches that are taken from `start` on: the first one, and those taken from its end on. -/
inductive Leftmost (needle text : String) : Nat → List Nat → Prop
  | none {start : Nat} (h : ∀ i, start ≤ i → ¬ OccursAt needle text i) :
    Leftmost needle text start []
  | next {start i : Nat} {rest : List Nat} (hstart : start ≤ i) (hi : OccursAt needle text i)
      (hfirst : ∀ j, start ≤ j → OccursAt needle text j → i ≤ j)
      (hrest : Leftmost needle text (i + needle.utf8ByteSize) rest) :
      Leftmost needle text start (i :: rest)

section Leftmost

variable {needle text : String} {start start' : Nat} {starts other : List Nat}

theorem Leftmost.unique (h : Leftmost needle text start starts)
    (h' : Leftmost needle text start other) : starts = other := by
  induction h generalizing other with
  | none hnone =>
    cases h' with
    | none => rfl
    | next hstart hi => exact absurd hi (hnone _ hstart)
  | next hstart hi hfirst hrest ih =>
    cases h' with
    | none hnone => exact absurd hi (hnone _ hstart)
    | next hstart' hi' hfirst' hrest' =>
      obtain rfl := Nat.le_antisymm (hfirst _ hstart' hi') (hfirst' _ hstart hi)
      rw [ih hrest']

theorem Leftmost.skip (h : Leftmost needle text start' starts)
    (hskip : ∀ i, start ≤ i → OccursAt needle text i → start' ≤ i) (hle : start ≤ start') :
    Leftmost needle text start starts := by
  cases h with
  | none hnone => exact .none fun i hi hoccurs => hnone i (hskip i hi hoccurs) hoccurs
  | next hstart hi hfirst hrest =>
    exact .next (hle.trans hstart) hi (fun j hj hoccurs => hfirst j (hskip j hj hoccurs) hoccurs)
      hrest

/-- **Counting counts the leftmost matches.** -/
theorem exists_leftmost (hne : needle ≠ "") (front cs : List Char)
    (htext : text.toList = front ++ cs) :
    ∃ starts, Leftmost needle text (utf8Len front) starts ∧
      starts.length = occurrences needle.toList cs := by
  generalize hneedle : needle.toList = ns
  fun_induction occurrences ns cs generalizing front with
  | case1 cs => exact absurd (String.toList_eq_nil_iff.mp hneedle) hne
  | case2 n ns =>
    refine ⟨[], .none fun i hi hoccurs => ?_, rfl⟩
    have hpos : needle.utf8ByteSize ≠ 0 := mt String.utf8ByteSize_eq_zero_iff.mp hne
    have hle := hoccurs.le hne
    rw [← String.utf8Len_toList text, htext, List.append_nil] at hle
    omega
  | case3 n ns c cs hbegins ih =>
    obtain ⟨behind, hcs⟩ := List.isPrefixOf_iff_prefix.mp hbegins
    have hdrop : cs.drop ns.length = behind := by
      rw [← (List.cons.inj hcs).2]
      exact List.drop_left
    have hsplit : text.toList = (front ++ needle.toList) ++ behind := by
      rw [htext, hneedle, List.append_assoc, hcs]
    have hstop : utf8Len front + needle.utf8ByteSize = utf8Len (front ++ needle.toList) := by
      rw [String.utf8Len_append, String.utf8Len_toList]
    have hoccurs : OccursAt needle text (utf8Len front) :=
      (occursAt_behind hne htext).mpr (hneedle ▸ ⟨behind, hcs⟩)
    rw [hdrop] at ih ⊢
    obtain ⟨rest, hrest, hlen⟩ := ih _ hsplit hneedle
    refine ⟨_, .next (Nat.le_refl _) hoccurs (fun j hj _ => hj) (hstop ▸ hrest), ?_⟩
    rw [List.length_cons, hlen, Nat.add_comm]
  | case4 n ns c cs hbegins ih =>
    have hsplit : text.toList = (front ++ [c]) ++ cs := by
      rw [htext, List.append_cons]
    obtain ⟨starts, hstarts, hlen⟩ := ih _ hsplit hneedle
    refine ⟨starts, hstarts.skip (fun i hi hoccurs => ?_) ?_, hlen⟩
    · -- the match does not begin here, and within a character it cannot
      refine hoccurs.not_within hne htext (Nat.lt_of_le_of_ne hi fun heq => ?_)
      rw [← heq, occursAt_behind hne htext, hneedle] at hoccurs
      exact hbegins (List.isPrefixOf_iff_prefix.mpr hoccurs)
    · rw [String.utf8Len_append]
      exact Nat.le_add_right _ _

theorem Leftmost.pairwise (h : Leftmost needle text start starts) :
    (∀ i ∈ starts, start ≤ i ∧ OccursAt needle text i) ∧
      starts.Pairwise fun i j => i + needle.utf8ByteSize ≤ j := by
  induction h with
  | none => exact ⟨by simp, .nil⟩
  | next hstart hi hfirst hrest ih =>
    obtain ⟨hall, hpair⟩ := ih
    refine ⟨List.forall_mem_cons.mpr ⟨⟨hstart, hi⟩, fun j hj => ⟨?_, (hall j hj).2⟩⟩,
      List.pairwise_cons.mpr ⟨fun j hj => (hall j hj).1, hpair⟩⟩
    have := (hall j hj).1
    omega

end Leftmost

/-! ## Other choices -/

/-- A choice of occurrences, no two of which overlap. -/
structure Apart (needle text : String) (chosen : Finset Nat) : Prop where
  occurs : ∀ i ∈ chosen, OccursAt needle text i
  apart : ∀ i ∈ chosen, ∀ j ∈ chosen, i ≠ j →
    i + needle.utf8ByteSize ≤ j ∨ j + needle.utf8ByteSize ≤ i

section Apart

variable {needle text : String} {start : Nat} {starts : List Nat} {chosen : Finset Nat}

theorem Leftmost.apart (hne : needle ≠ "") (h : Leftmost needle text start starts) :
    Apart needle text starts.toFinset ∧ starts.toFinset.card = starts.length := by
  have hpos : needle.utf8ByteSize ≠ 0 := mt String.utf8ByteSize_eq_zero_iff.mp hne
  have hsymm : Std.Symm fun i j : Nat =>
      i + needle.utf8ByteSize ≤ j ∨ j + needle.utf8ByteSize ≤ i := ⟨fun _ _ => Or.symm⟩
  obtain ⟨hall, hpair⟩ := h.pairwise
  have heither : starts.Pairwise fun i j : Nat =>
      i + needle.utf8ByteSize ≤ j ∨ j + needle.utf8ByteSize ≤ i := hpair.imp Or.inl
  refine ⟨⟨fun i hi => (hall i (List.mem_toFinset.mp hi)).2, fun i hi j hj hij => ?_⟩,
    List.toFinset_card_of_nodup (hpair.imp fun hle => ?_)⟩
  · exact heither.forall (List.mem_toFinset.mp hi) (List.mem_toFinset.mp hj) hij
  · omega

/-- **No other choice has more.** Without its first occurrence a choice begins where the leftmost
match ends, or behind that. -/
theorem Leftmost.card_le (h : Leftmost needle text start starts)
    (hchosen : Apart needle text chosen) (hstart : ∀ i ∈ chosen, start ≤ i) :
    chosen.card ≤ starts.length := by
  induction h generalizing chosen with
  | none hnone =>
    have hempty : chosen = ∅ :=
      Finset.eq_empty_of_forall_notMem fun i hi => hnone i (hstart i hi) (hchosen.occurs i hi)
    rw [hempty]
    rfl
  | @next start i rest _ _ hfirst _ ih =>
    rcases chosen.eq_empty_or_nonempty with rfl | hsome
    · exact Nat.zero_le _
    · let first := chosen.min' hsome
      have hmem : first ∈ chosen := chosen.min'_mem hsome
      have hle : i ≤ first := hfirst first (hstart first hmem) (hchosen.occurs first hmem)
      have hrest : (chosen.erase first).card ≤ rest.length := by
        refine ih ⟨fun j hj => hchosen.occurs j (Finset.mem_of_mem_erase hj), ?_⟩ fun j hj => ?_
        · intro j hj k hk
          exact hchosen.apart j (Finset.mem_of_mem_erase hj) k (Finset.mem_of_mem_erase hk)
        · obtain ⟨hne, hj⟩ := Finset.mem_erase.mp hj
          have hbehind : first ≤ j := chosen.min'_le j hj
          have := hchosen.apart first hmem j hj hne.symm
          omega
      rw [← Finset.card_erase_add_one hmem, List.length_cons]
      omega

/-- **The count is the size of the largest choice.** -/
theorem isGreatest_occurrences (hne : needle ≠ "") (text : String) :
    IsGreatest {n | ∃ chosen, Apart needle text chosen ∧ chosen.card = n}
      (occurrences needle.toList text.toList) := by
  obtain ⟨starts, hstarts, hlen⟩ := exists_leftmost hne [] text.toList rfl
  rw [← hlen]
  refine ⟨⟨_, hstarts.apart hne⟩, ?_⟩
  rintro _ ⟨chosen, hchosen, rfl⟩
  exact hstarts.card_le hchosen fun i _ => Nat.zero_le i

end Apart

/-! ## No occurrence -/

theorem occurrences_eq_zero_iff {needle : List Char} (hne : needle ≠ []) (text : List Char) :
    occurrences needle text = 0 ↔ ¬ needle <:+: text := by
  fun_induction occurrences needle text with
  | case1 text => exact absurd rfl hne
  | case2 n ns => simp
  | case3 n ns c cs hbegins ih =>
    have hinside := List.IsPrefix.isInfix (List.isPrefixOf_iff_prefix.mp hbegins)
    simp [hinside]
  | case4 n ns c cs hbegins ih =>
    rw [ih hne, List.infix_cons_iff, ← List.isPrefixOf_iff_prefix]
    simp [hbegins]

end GoldenCheck.Text
