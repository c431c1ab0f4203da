import GoldenCheck.Proofs.Token.Places

/-!
# The lines of added files

The line of an offset is told by the newlines in front of it, whether they are counted among the
bytes of the text or the offset is searched for among the starts of its lines. Files keep the
numbers under which they were added. Nothing asks whether the offset stands in its file: behind the
end of the text every offset is on the last line.

* `newlineBytes`, **`newlineBytes_eq`**: the newlines in front of an offset, as bytes and as
  characters;
* `startsBehind`, `SourceFile.starts`, `starts_ascending`: where lines start;
* `Located`, `bisect`, **`bisect_located`**: what a search in ascending values tells;
* `SourceFile.search`, **`search_lineIndex`**: it finds the line of an offset;
* `SourceTable.addAll`, `addAll_numbers`, `file?_ofFiles`: the files that were added;
* `LineDocumented`, `lineDocumented_iff`, **`lineNumber?_added`**: their lines.
-/

namespace GoldenCheck

/-! ## Newline bytes -/

/-- How many newline bytes of the text stand before an offset. -/
def newlineBytes (text : String) (offset : Nat) : Nat :=
  (text.toByteArray.data.toList.take offset).count '\n'.toUInt8

theorem newline_mem_encoded {c : Char} : '\n'.toUInt8 ∈ String.utf8EncodeChar c ↔ c = '\n' := by
  have hbyte : '\n'.toUInt8.toNat = 10 := rfl
  have hchar : c = '\n' ↔ c.val.toNat = 10 := by
    rw [← Char.toNat_inj]
    rfl
  have hmem (b : UInt8) : '\n'.toUInt8 = b ↔ b.toNat = 10 := by
    rw [← UInt8.toNat_inj, hbyte, eq_comm]
  -- the bytes of a longer code are 128 or more
  rw [hchar, String.utf8EncodeChar]
  split_ifs <;>
    simp only [List.mem_cons, List.not_mem_nil, or_false, hmem, UInt8.toNat_ofNat'] <;> omega

theorem count_encoded (n : Nat) (c : Char) :
    ((String.utf8EncodeChar c).take n).count '\n'.toUInt8 = if c = '\n' ∧ 0 < n then 1 else 0 := by
  by_cases hc : c = '\n'
  · subst hc
    have hcode : String.utf8EncodeChar '\n' = ['\n'.toUInt8] := by decide
    rw [hcode]
    cases n with
    | zero => rfl
    | succ n => simp
  · rw [if_neg fun h => hc h.1, List.count_eq_zero]
    exact fun h => hc (newline_mem_encoded.mp (List.mem_of_mem_take h))

theorem count_allEncoded (stop offset : Nat) (cs : List Char) :
    ((cs.flatMap String.utf8EncodeChar).take (stop - offset)).count '\n'.toUInt8 =
      newlinesBefore stop offset cs := by
  induction cs generalizing offset with
  | nil => rw [List.flatMap_nil, List.take_nil, List.count_nil, newlinesBefore]
  | cons c cs ih =>
    have htail : stop - offset - (String.utf8EncodeChar c).length =
        stop - (offset + c.utf8Size) := by
      rw [String.length_utf8EncodeChar, Nat.sub_sub]
    rw [List.flatMap_cons, List.take_append, List.count_append, count_encoded, htail, ih,
      newlinesBefore]
    simp only [Nat.sub_pos_iff_lt]

/-- **The newlines before an offset are newline bytes.** -/
theorem newlineBytes_eq (text : String) (offset : Nat) :
    newlineBytes text offset = newlinesBefore offset 0 text.toList := by
  have hbytes : text.toByteArray.data.toList = text.toList.flatMap String.utf8EncodeChar := by
    rw [← String.utf8Encode_toList, List.utf8Encode, List.data_toByteArray]
  rw [newlineBytes, hbytes]
  exact count_allEncoded offset 0 text.toList

theorem newlineBytes_pastEnd {text : String} {offset : Nat} (h : text.utf8ByteSize ≤ offset) :
    newlineBytes text offset = newlineBytes text text.utf8ByteSize := by
  have hlength : text.toByteArray.data.toList.length = text.utf8ByteSize := by
    rw [Array.length_toList]
    exact String.size_toByteArray
  rw [newlineBytes, newlineBytes, List.take_of_length_le (hlength.le.trans h),
    List.take_of_length_le hlength.le]

/-! ## The starts of lines -/

/-- The offsets behind the newlines of a text that starts at `offset`. -/
def startsBehind (offset : Nat) : List Char → List Nat
  | [] => []
  | c :: cs =>
    let next := offset + c.utf8Size
    if c = '\n' then next :: startsBehind next cs else startsBehind next cs

/-- Where the lines of a file start: at its start, and behind every newline. -/
def SourceFile.starts (file : SourceFile) : Array Nat :=
  (0 :: startsBehind 0 file.text.toList).toArray

theorem map_start_linesFrom (offset : Nat) (cs : List Char) :
    (linesFrom offset cs).map (·.start) = offset :: startsBehind offset cs := by
  induction cs generalizing offset with
  | nil => rfl
  | cons c cs ih =>
    have hrest := ih (offset + c.utf8Size)
    rw [linesFrom, startsBehind]
    split_ifs
    · rw [List.map_cons, hrest]
    · cases hlines : linesFrom (offset + c.utf8Size) cs with
      | nil =>
        rw [hlines] at hrest
        cases hrest
      | cons line lines =>
        rw [hlines, List.map_cons] at hrest
        rw [List.map_cons, (List.cons.inj hrest).2]

theorem startsBehind_ascending (offset : Nat) (cs : List Char) :
    (offset :: startsBehind offset cs).Pairwise (· < ·) := by
  induction cs generalizing offset with
  | nil => exact List.pairwise_singleton _ _
  | cons c cs ih =>
    have hpos := c.utf8Size_pos
    obtain ⟨hnext, hrest⟩ := List.pairwise_cons.mp (ih (offset + c.utf8Size))
    have hbehind : ∀ s ∈ startsBehind (offset + c.utf8Size) cs, offset < s := by
      intro s hs
      have := hnext s hs
      omega
    rw [startsBehind]
    split_ifs
    · refine List.pairwise_cons.mpr ⟨?_, ih _⟩
      exact List.forall_mem_cons.mpr ⟨by omega, hbehind⟩
    · exact List.pairwise_cons.mpr ⟨hbehind, hrest⟩

theorem SourceFile.starts_ascending (file : SourceFile) :
    file.starts.toList.Pairwise (· < ·) :=
  startsBehind_ascending 0 file.text.toList

/-- The line of an offset is the last one that starts there or in front of it. -/
theorem SourceFile.lineIndex_eq_starts (file : SourceFile) (offset : Nat) :
    file.lineIndex offset = file.starts.toList.countP (· ≤ offset) - 1 := by
  rw [lineIndex, lines, starts, ← map_start_linesFrom, List.countP_map]
  rfl

/-! ## Searching in ascending values -/

/-- What a search for a value tells: where it stands, or else where it would have to be put in. -/
inductive Located (values : Array Nat) (x : Nat) : Except Nat Nat → Prop
  | found {i : Nat} (h : i < values.size) (hx : values[i] = x) : Located values x (.ok i)
  | missing {i : Nat} (hi : i ≤ values.size)
      (hbelow : ∀ j (h : j < values.size), j < i → values[j] < x)
      (habove : ∀ j (h : j < values.size), i ≤ j → x < values[j]) : Located values x (.error i)

/-- Searches the values from `lo` up to, not including, `hi`: looks at the middle one, and goes on
in the half that is left. -/
def bisect (values : Array Nat) (x lo hi : Nat) (h : hi ≤ values.size) : Except Nat Nat :=
  if hlt : lo < hi then
    let mid := lo + (hi - lo) / 2
    have hmid : mid < values.size := by omega
    if values[mid] = x then .ok mid
    else if values[mid] < x then bisect values x (mid + 1) hi h
    else bisect values x lo mid hmid.le
  else .error lo
termination_by hi - lo

section Search

variable {values : Array Nat} {x lo hi : Nat} {result : Except Nat Nat}

theorem getElem_lt_of_ascending (hasc : values.toList.Pairwise (· < ·)) {i j : Nat} (hij : i < j)
    (hj : j < values.size) : values[i] < values[j] :=
  List.pairwise_iff_getElem.mp hasc i j (hij.trans hj) hj hij

/-- **Halving finds the value, or the place where it is missing.** -/
theorem bisect_located (hasc : values.toList.Pairwise (· < ·)) (h : hi ≤ values.size)
    (hle : lo ≤ hi) (hbelow : ∀ j (hj : j < values.size), j < lo → values[j] < x)
    (habove : ∀ j (hj : j < values.size), hi ≤ j → x < values[j]) :
    Located values x (bisect values x lo hi h) := by
  fun_induction bisect values x lo hi h with
  | case1 lo hi h hlt mid hmid heq => exact .found hmid heq
  | case2 lo hi h hlt mid hmid hne hsmall ih =>
    refine ih (by omega) (fun j hj hlo => ?_) habove
    rcases Nat.lt_succ_iff_lt_or_eq.mp hlo with hj' | rfl
    · exact (getElem_lt_of_ascending hasc hj' hmid).trans hsmall
    · exact hsmall
  | case3 lo hi h hlt mid hmid hne hlarge ih =>
    have hbig : x < values[mid] := by omega
    refine ih (by omega) hbelow (fun j hj hhi => ?_)
    rcases Nat.lt_or_eq_of_le hhi with hj' | rfl
    · exact hbig.trans (getElem_lt_of_ascending hasc hj' hj)
    · exact hbig
  | case4 lo hi h hlt =>
    obtain rfl : lo = hi := by omega
    exact .missing h hbelow habove

theorem countP_of_cut {n : Nat} (hn : n ≤ values.size)
    (hlow : ∀ j (h : j < values.size), j < n → values[j] ≤ x)
    (hhigh : ∀ j (h : j < values.size), n ≤ j → x < values[j]) :
    values.toList.countP (· ≤ x) = n := by
  have hfront : (values.toList.take n).countP (· ≤ x) = n := by
    have hall : ∀ v ∈ values.toList.take n, decide (v ≤ x) = true := by
      intro v hv
      obtain ⟨j, hj, rfl⟩ := List.mem_take_iff_getElem.mp hv
      obtain ⟨hjn, hjsize⟩ := Nat.lt_min.mp hj
      exact decide_eq_true (hlow j hjsize hjn)
    rw [List.countP_eq_length.mpr hall, List.length_take, Array.length_toList, Nat.min_eq_left hn]
  have hback : (values.toList.drop n).countP (· ≤ x) = 0 := by
    refine List.countP_eq_zero.mpr fun v hv => ?_
    obtain ⟨j, hj, rfl⟩ := List.mem_drop_iff_getElem.mp hv
    have hlt := hhigh (n + j) (Nat.add_comm j n ▸ hj) (Nat.le_add_right n j)
    simpa using hlt
  rw [← List.take_append_drop n values.toList, List.countP_append, hfront, hback, Nat.add_zero]

/-- A search tells how many values are not past `x`: those up to the place where it stands, or
those in front of the place where it is missing. -/
theorem Located.eq_count (hasc : values.toList.Pairwise (· < ·)) (h : Located values x result) :
    result = .ok (values.toList.countP (· ≤ x) - 1) ∨
      result = .error (values.toList.countP (· ≤ x)) := by
  cases h with
  | @found i h hx =>
    have hcount : values.toList.countP (· ≤ x) = i + 1 := by
      refine countP_of_cut h (fun j hj hji => ?_)
        (fun j hj hij => hx ▸ getElem_lt_of_ascending hasc hij hj)
      rcases Nat.lt_succ_iff_lt_or_eq.mp hji with hlt | rfl
      · exact hx ▸ (getElem_lt_of_ascending hasc hlt h).le
      · exact hx.le
    rw [hcount]
    exact .inl rfl
  | @missing i hi hbelow habove =>
    rw [countP_of_cut hi (fun j hj hji => (hbelow j hj hji).le) habove]
    exact .inr rfl

end Search

/-- Searches for an offset among the starts of the lines. -/
def SourceFile.search (file : SourceFile) (offset : Nat) : Except Nat Nat :=
  bisect file.starts offset 0 file.starts.size (Nat.le_refl _)

/-- **A search among the starts of lines finds the line of an offset**: it starts there, or else the
next line would. -/
theorem search_lineIndex (file : SourceFile) (offset : Nat) :
    file.search offset = .ok (file.lineIndex offset) ∨
      file.search offset = .error (file.lineIndex offset + 1) := by
  have hlocated : Located file.starts offset (file.search offset) :=
    bisect_located file.starts_ascending _ (Nat.zero_le _)
      (fun _ _ h => absurd h (Nat.not_lt_zero _)) (fun _ hj h => absurd hj (Nat.not_lt.mpr h))
  -- no offset is in front of the first line
  have hpos : 0 < file.starts.toList.countP (· ≤ offset) :=
    List.countP_pos_iff.mpr ⟨0, List.mem_cons_self, by simp⟩
  rw [file.lineIndex_eq_starts]
  rcases hlocated.eq_count file.starts_ascending with hfound | hmissing
  · exact .inl hfound
  · refine .inr ?_
    rw [hmissing, Nat.sub_add_cancel hpos]

/-! ## Added files -/

namespace SourceTable

/-- Adds files one after the other: each of them with the number that it is given, and the table
that holds them. -/
def addAll (table : SourceTable) : List SourceFile → List (Nat × SourceFile) × SourceTable
  | [] => ([], table)
  | file :: files =>
    let (added, after) := (table.add file).addAll files
    ((table.files.size, file) :: added, after)

theorem addAll_cons (table : SourceTable) (file : SourceFile) (files : List SourceFile) :
    table.addAll (file :: files) =
      ((table.files.size, file) :: ((table.add file).addAll files).1,
        ((table.add file).addAll files).2) := rfl

theorem addAll_numbers (table : SourceTable) (files : List SourceFile) :
    (table.addAll files).1.map Prod.fst = List.range' table.files.size files.length ∧
      (table.addAll files).1.map Prod.snd = files := by
  induction files generalizing table with
  | nil => exact ⟨rfl, rfl⟩
  | cons file files ih =>
    obtain ⟨hnumbers, hfiles⟩ := ih (table.add file)
    have hsize : (table.add file).files.size = table.files.size + 1 := Array.size_push file
    rw [addAll_cons, List.map_cons, List.map_cons, hnumbers, hfiles, hsize, List.length_cons,
      List.range'_succ]
    exact ⟨rfl, rfl⟩

theorem file?_addAll {table : SourceTable} {files : List SourceFile} {number : Nat}
    {file : SourceFile} :
    (table.addAll files).2.file? number = some file ↔
      table.file? number = some file ∨ (number, file) ∈ (table.addAll files).1 := by
  induction files generalizing table with
  | nil => simp [addAll]
  | cons first files ih =>
    rw [addAll_cons, ih, file?_add, List.mem_cons]
    by_cases h : number = table.files.size
    · subst h
      have hnone : table.file? table.files.size = none := Array.getElem?_size
      simp [hnone, eq_comm]
    · simp [h]

/-- The files with the numbers that they are given in an empty table. -/
def numbered (files : List SourceFile) : List (Nat × SourceFile) :=
  (({} : SourceTable).addAll files).1

/-- The table of files that were added one after the other. -/
def ofFiles (files : List SourceFile) : SourceTable := (({} : SourceTable).addAll files).2

theorem file?_ofFiles {files : List SourceFile} {number : Nat} {file : SourceFile} :
    (ofFiles files).file? number = some file ↔ (number, file) ∈ numbered files := by
  have hempty : ({} : SourceTable).file? number = none := Array.getElem?_empty
  rw [ofFiles, file?_addAll, hempty]
  simp [numbered]

/-! ## Lines of added files -/

theorem lineNumber?_eq (table : SourceTable) (number offset : Nat) :
    table.lineNumber? number offset =
      (table.file? number).map fun file => 1 + newlineBytes file.text offset := by
  rw [lineNumber?]
  congr 1
  funext file
  rw [lineIndex_eq, newlineBytes_eq, Nat.add_comm]

/-- The answer for an offset is the documented one: its line up to the end of a file that was added
under the number, which is one more than the newline bytes in front of it, and otherwise none. -/
def LineDocumented (added : List (Nat × SourceFile)) (number offset : Nat) (answer : Option Nat) :
    Prop :=
  ∀ line, answer = some line ↔
    ∃ file, (number, file) ∈ added ∧ offset ≤ file.text.utf8ByteSize ∧
      line = 1 + newlineBytes file.text offset

section Added

variable {files : List SourceFile} {number offset : Nat} {file : SourceFile}

theorem lineNumber?_of_numbered (h : (number, file) ∈ numbered files) :
    (ofFiles files).lineNumber? number offset = some (1 + newlineBytes file.text offset) := by
  rw [lineNumber?_eq, file?_ofFiles.mpr h, Option.map_some]

theorem lineNumber?_of_unknown (h : ∀ file, (number, file) ∉ numbered files) :
    (ofFiles files).lineNumber? number offset = none := by
  have hmissing : (ofFiles files).file? number = none := by
    apply Option.eq_none_iff_forall_not_mem.mpr
    exact fun file hfile => h file (file?_ofFiles.mp hfile)
  rw [lineNumber?_eq, hmissing, Option.map_none]

/-- **The answer is the documented one** unless the offset is past the end of a file. -/
theorem lineDocumented_iff :
    LineDocumented (numbered files) number offset ((ofFiles files).lineNumber? number offset) ↔
      ∀ file, (number, file) ∈ numbered files → offset ≤ file.text.utf8ByteSize := by
  constructor
  · intro hdocumented file hmem
    obtain ⟨other, hother, hle, -⟩ := (hdocumented _).mp (lineNumber?_of_numbered hmem)
    -- a number stands for one file only
    have hsame := (file?_ofFiles.mpr hmem).symm.trans (file?_ofFiles.mpr hother)
    obtain rfl := Option.some.inj hsame
    exact hle
  · intro hinside line
    rw [lineNumber?_eq, Option.map_eq_some_iff]
    constructor
    · rintro ⟨file, hfile, rfl⟩
      have hmem := file?_ofFiles.mp hfile
      exact ⟨file, hmem, hinside file hmem, rfl⟩
    · rintro ⟨file, hmem, -, rfl⟩
      exact ⟨file, file?_ofFiles.mpr hmem, rfl⟩

end Added

/-- **The lines of the files that were added.** Files are numbered in the order in which they are
added. The line of an offset in one of them, which is found by a search among the starts of its
lines, is one more than the newline bytes in front of the offset; behind the end of the file it is
the line of the end. Other numbers have no lines. So the answer is the documented one just if the
offset is not past the end of a file that was added. -/
theorem lineNumber?_added (files : List SourceFile) (number offset : Nat) :
    (numbered files).map Prod.fst = List.range files.length ∧
      (numbered files).map Prod.snd = files ∧
      (∀ file, (number, file) ∈ numbered files → ∃ line,
        (file.search offset = .ok line ∨ file.search offset = .error (line + 1)) ∧
          line = newlineBytes file.text offset ∧
          (ofFiles files).lineNumber? number offset = some (1 + line) ∧
          (file.text.utf8ByteSize ≤ offset →
            (ofFiles files).lineNumber? number file.text.utf8ByteSize = some (1 + line))) ∧
      ((∀ file, (number, file) ∉ numbered files) →
        (ofFiles files).lineNumber? number offset = none) ∧
      (LineDocumented (numbered files) number offset
          ((ofFiles files).lineNumber? number offset) ↔
        ∀ file, (number, file) ∈ numbered files → offset ≤ file.text.utf8ByteSize) := by
  obtain ⟨hnumbers, hfiles⟩ := addAll_numbers {} files
  have hrange := hnumbers.trans List.range_eq_range'.symm
  refine ⟨hrange, hfiles, fun file hmem => ?_, lineNumber?_of_unknown, lineDocumented_iff⟩
  have hindex : file.lineIndex offset = newlineBytes file.text offset := by
    rw [lineIndex_eq, newlineBytes_eq]
  refine ⟨_, hindex ▸ search_lineIndex file offset, rfl, lineNumber?_of_numbered hmem,
    fun hpast => ?_⟩
  rw [newlineBytes_pastEnd hpast]
  exact lineNumber?_of_numbered hmem

/-- An offset past the end of a file has a line, but should have none. -/
theorem not_lineDocumented_pastEnd :
    let files : List SourceFile := [⟨"a", "x\n"⟩]
    (ofFiles files).lineNumber? 0 3 = some 2 ∧
      ¬ LineDocumented (numbered files) 0 3 ((ofFiles files).lineNumber? 0 3) := by
  intro files
  have hanswer : (ofFiles files).lineNumber? 0 3 = some 2 := by decide +kernel
  refine ⟨hanswer, fun hdocumented => ?_⟩
  obtain ⟨file, hmem, hle, -⟩ := (hdocumented 2).mp hanswer
  obtain rfl : file = ⟨"a", "x\n"⟩ := (Prod.mk.inj (List.mem_singleton.mp hmem)).2
  exact absurd hle (by decide)

end SourceTable

end GoldenCheck
