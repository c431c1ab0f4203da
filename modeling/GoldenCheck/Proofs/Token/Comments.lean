import GoldenCheck.Proofs.Token.Pieces

/-!
# Comments that are kept

Whether comments are kept decides only how they are spelled: as they stand in the text, or as one
blank.

* `Token.withoutComment`: the token as it is if comments are not kept;
* **`lex_withoutComment`**, `tokens?_withoutComment`: the items of a text, and its tokens.
-/

namespace GoldenCheck

namespace Token

/-- A comment becomes the blank that stands for it. Every other token stays. -/
def withoutComment (t : Token) : Token :=
  if t.kind = .comment then ⟨.whitespace, " ", t.location⟩ else t

variable {t : Token}

theorem withoutComment_of_ne (h : t.kind ≠ .comment) : t.withoutComment = t := if_neg h

theorem withoutComment_of_not_blank (h : t.isBlank = false) : t.withoutComment = t := by
  refine withoutComment_of_ne fun hk => ?_
  simp [isBlank, hk] at h

@[simp] theorem location_withoutComment (t : Token) : t.withoutComment.location = t.location := by
  unfold withoutComment
  split <;> rfl

@[simp] theorem isBlank_withoutComment (t : Token) : t.withoutComment.isBlank = t.isBlank := by
  unfold withoutComment
  split
  · next h => simp [isBlank, h]
  · rfl

@[simp] theorem isNewline_withoutComment (t : Token) :
    t.withoutComment.kind = .newline ↔ t.kind = .newline := by
  unfold withoutComment
  split
  · next h => simp [h]
  · rfl

@[simp] theorem isPunctuator_withoutComment (t : Token) (p : Punctuator) :
    t.withoutComment.isPunctuator p = t.isPunctuator p := by
  unfold withoutComment
  split
  · next h => simp [isPunctuator, h]
  · rfl

end Token

namespace LexRules

theorem item_withoutComment (spelling : SpellingRules) (file : Nat) {g : Glyph} {piece : Piece}
    (h : piece.Fits g) : piece.item ⟨spelling, false⟩ file g =
      (piece.item ⟨spelling, true⟩ file g).map Token.withoutComment := by
  cases piece with
  | token kind others =>
    have hkind : kind ≠ .comment := by
      rcases h with ⟨rfl, -⟩ | ⟨-, hkind, -⟩
      · exact TokenKind.noConfusion
      · exact hkind
    exact congrArg Except.ok (Token.withoutComment_of_ne hkind).symm
  | comment others => rfl
  | fault d others => rfl

/-- **Two ways to split a text that differ in whether comments are kept** find the same tokens and
faults, comments apart. -/
theorem lex_withoutComment (spelling : SpellingRules) (file : Nat) (text : String) :
    (⟨spelling, false⟩ : LexRules).lex file text =
      ((⟨spelling, true⟩ : LexRules).lex file text).map (Except.map Token.withoutComment) := by
  obtain ⟨ps, -, hfits, hitems⟩ := items_pieces file (spelling.glyphs 0 text.toList)
  rw [lex, lex, hitems, hitems, List.map_map]
  exact List.map_congr_left fun x hx => item_withoutComment spelling file (hfits x hx)

theorem tokens?_withoutComment (spelling : SpellingRules) (file : Nat) (text : String) :
    (⟨spelling, false⟩ : LexRules).tokens? file text =
      ((⟨spelling, true⟩ : LexRules).tokens? file text).map (List.map Token.withoutComment) := by
  rw [tokens?, tokens?, lex_withoutComment]
  induction (⟨spelling, true⟩ : LexRules).lex file text with
  | nil => rfl
  | cons item items ih =>
    rw [List.map_cons, List.mapM_cons, List.mapM_cons, ih]
    cases item with
    | error d => rfl
    | ok t => cases items.mapM id <;> rfl

end LexRules

end GoldenCheck
