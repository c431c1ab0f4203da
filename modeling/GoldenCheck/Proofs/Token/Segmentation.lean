import GoldenCheck.Proofs.Spelling.Phases
import GoldenCheck.Proofs.Token.Pieces
import Mathlib.Data.List.Forall2

/-!
# Segments of a text

With comments kept, splitting loses nothing: the items of a text stand for consecutive runs of its
glyphs, which together are all of them.

* `Token.SpelledBy`: the token is spelled by a run of glyphs, and covers it;
* `items_runs`: the runs that the items of some glyphs stand for;
* `SpellTokens`, `text_of_runs`, `pairwise_of_runs`, `runs_of_pair`: what follows for tokens;
* **`lex_segmentation`**: the runs of a whole text, and its tokens if it has no fault.
-/

namespace GoldenCheck

/-- The token is spelled by the run, and reaches from its first glyph to its last one. -/
structure Token.SpelledBy (file : Nat) (run : List Glyph) (t : Token) : Prop where
  text : t.text = Glyph.textOf run
  file : t.location.file = file
  start : ∀ g ∈ run.head?, t.location.span.start = g.span.start
  stop : ∀ g ∈ run.getLast?, t.location.span.stop = g.span.stop

theorem spelledBy_ofGlyphs (kind : TokenKind) (file : Nat) (g : Glyph) (others : List Glyph) :
    (Token.ofGlyphs kind file g others).SpelledBy file (g :: others) := by
  refine ⟨rfl, rfl, fun first hfirst => ?_, fun last hlast => ?_⟩
  · rw [← Option.some.inj hfirst]
    rfl
  · rw [List.getLast?_cons] at hlast
    rw [← Option.some.inj hlast]
    rfl

/-- The item stands for the run: it is spelled by it, if it is a token. -/
def StandsFor (file : Nat) (item : Lexed) (run : List Glyph) : Prop :=
  run ≠ [] ∧ ∀ t, item = .ok t → t.SpelledBy file run

namespace LexRules

/-- **The items of glyphs stand for consecutive runs of them**, and behind every run splitting goes
on with the next one. -/
theorem items_runs {rules : LexRules} (hkeep : rules.keepComments = true) (file : Nat)
    (gs : List Glyph) : ∃ runs : List (List Glyph), runs.flatten = gs ∧
      List.Forall₂ (StandsFor file) (rules.items file gs) runs ∧
        ∀ n, rules.items file (runs.drop n).flatten = (rules.items file gs).drop n := by
  fun_induction items rules file gs with
  | case1 => exact ⟨[], rfl, .nil, fun n => by simp [items]⟩
  | case2 g gs _ found ih =>
    obtain ⟨piece, rest, happend, -, hstep⟩ := step_piece file g gs
    have hfound : found = (piece.item rules file g, rest) := hstep rules
    obtain ⟨runs, hflatten, hruns, hdrop⟩ := ih
    rw [hfound] at hflatten hruns hdrop ⊢
    refine ⟨(g :: piece.others) :: runs, ?_, .cons ⟨by simp, fun t ht => ?_⟩ hruns, fun n => ?_⟩
    · rw [List.flatten_cons, hflatten, List.cons_append, ← happend]
    · cases piece with
      | token kind others =>
        obtain rfl := Except.ok.inj ht
        exact spelledBy_ofGlyphs kind file g others
      | comment others =>
        obtain rfl := Except.ok.inj ht
        rw [comment_of_keep hkeep]
        exact spelledBy_ofGlyphs .comment file g others
      | fault d others => cases ht
    · cases n with
      | zero =>
        rw [List.drop_zero, List.flatten_cons, hflatten, List.cons_append, ← happend, items, hstep]
        rfl
      | succ n => exact hdrop n

end LexRules

/-! ## Tokens of runs -/

section Runs

variable {file : Nat} {ts : List Token} {runs : List (List Glyph)}

/-- Runs that are spellings of tokens. -/
def SpellTokens (file : Nat) (ts : List Token) (runs : List (List Glyph)) : Prop :=
  List.Forall₂ (fun t run => run ≠ [] ∧ t.SpelledBy file run) ts runs

theorem spellTokens_of_standsFor (h : List.Forall₂ (StandsFor file) (ts.map .ok) runs) :
    SpellTokens file ts runs := by
  rw [List.forall₂_map_left_iff] at h
  exact h.imp fun t run hstands => ⟨hstands.1, hstands.2 t rfl⟩

theorem text_of_runs (h : SpellTokens file ts runs) :
    String.join (ts.map (·.text)) = String.ofList (runs.flatten.map (·.char)) := by
  induction h with
  | nil => rfl
  | @cons t run ts runs ht _ ih =>
    rw [List.map_cons, String.join_cons, ih, ht.2.text, Glyph.textOf, List.flatten_cons,
      List.map_append, String.ofList_append]

theorem Token.SpelledBy.first {t : Token} {run : List Glyph} (h : t.SpelledBy file run)
    (hne : run ≠ []) : ∃ g others, run = g :: others ∧ t.location.span.start = g.span.start := by
  obtain ⟨g, others, rfl⟩ := List.exists_cons_of_ne_nil hne
  exact ⟨g, others, rfl, h.start g rfl⟩

theorem Token.SpelledBy.last {t : Token} {run : List Glyph} (h : t.SpelledBy file run)
    (hne : run ≠ []) : ∃ front g, run = front ++ [g] ∧ t.location.span.stop = g.span.stop := by
  rcases List.eq_nil_or_concat run with rfl | ⟨front, g, rfl⟩
  · exact absurd rfl hne
  · exact ⟨front, g, List.concat_eq_append, h.stop g (by simp)⟩

theorem starts_of_runs (h : SpellTokens file ts runs) :
    ∀ t ∈ ts, ∃ g ∈ runs.flatten, t.location.span.start = g.span.start := by
  induction h with
  | nil => simp
  | @cons t run ts runs ht _ ih =>
    intro u hu
    rcases List.mem_cons.mp hu with rfl | hu
    · obtain ⟨g, others, rfl, hstart⟩ := ht.2.first ht.1
      exact ⟨g, by simp, hstart⟩
    · obtain ⟨g, hg, hstart⟩ := ih u hu
      exact ⟨g, by rw [List.flatten_cons]; exact List.mem_append_right _ hg, hstart⟩

theorem pairwise_of_runs (h : SpellTokens file ts runs)
    (hfills : ∀ g ∈ runs.flatten, g.span.start < g.span.stop)
    (hpair : runs.flatten.Pairwise fun a b => a.span.stop ≤ b.span.start) :
    (∀ t ∈ ts, t.location.span.start < t.location.span.stop) ∧
      ts.Pairwise fun a b => a.location.span.stop ≤ b.location.span.start := by
  induction h with
  | nil => exact ⟨by simp, .nil⟩
  | @cons t run ts runs ht htail ih =>
    rw [List.flatten_cons] at hfills hpair
    obtain ⟨hrun, hrest, hcross⟩ := List.pairwise_append.mp hpair
    obtain ⟨hlt, hts⟩ := ih (fun g hg => hfills g (List.mem_append_right _ hg)) hrest
    obtain ⟨front, last, hlast, hstop⟩ := ht.2.last ht.1
    have hmem : last ∈ run := by simp [hlast]
    refine ⟨List.forall_mem_cons.mpr ⟨?_, hlt⟩, List.pairwise_cons.mpr ⟨fun u hu => ?_, hts⟩⟩
    · obtain ⟨first, others, hfirst, hstart⟩ := ht.2.first ht.1
      have hle : first.span.start ≤ last.span.start := by
        rw [hfirst] at hmem hrun
        rcases List.mem_cons.mp hmem with rfl | hothers
        · exact Nat.le_refl _
        · have hbehind := (List.pairwise_cons.mp hrun).1 last hothers
          have hpos := hfills first (by simp [hfirst])
          omega
      have hpos := hfills last (List.mem_append_left _ hmem)
      rw [hstart, hstop]
      omega
    · obtain ⟨g, hg, hstart⟩ := starts_of_runs htail u hu
      rw [hstop, hstart]
      exact hcross last hmem g hg

theorem runs_of_pair {before behind : List Token} {a b : Token}
    (h : SpellTokens file (before ++ a :: b :: behind) runs) : ∃ front x y back,
      runs.flatten = front ++ x :: y :: back ∧ a.location.span.stop = x.span.stop ∧
        b.location.span.start = y.span.start := by
  induction before generalizing runs with
  | nil =>
    obtain ⟨ra, rest, ha, hrest, rfl⟩ := List.forall₂_cons_left_iff.mp h
    obtain ⟨rb, rest, hb, -, rfl⟩ := List.forall₂_cons_left_iff.mp hrest
    obtain ⟨front, x, rfl, hstop⟩ := ha.2.last ha.1
    obtain ⟨y, back, rfl, hstart⟩ := hb.2.first hb.1
    exact ⟨front, x, y, back ++ rest.flatten, by simp, hstop, hstart⟩
  | cons t before ih =>
    obtain ⟨run, rest, -, hrest, rfl⟩ := List.forall₂_cons_left_iff.mp h
    obtain ⟨front, x, y, back, hflatten, hxy⟩ := ih hrest
    exact ⟨run ++ front, x, y, back, by simp [hflatten], hxy⟩

end Runs

/-! ## A whole text -/

namespace LexRules

/-- **Splitting loses nothing if comments are kept.** The items of a text stand for consecutive
runs of its glyphs, and behind every run splitting goes on with the next one. So the tokens of a
text without a fault spell its phases, they lie one behind the other, and there are only joints
between two that follow each other. -/
theorem lex_segmentation (spelling : SpellingRules) (file : Nat) (text : String) :
    let rules : LexRules := ⟨spelling, true⟩
    (∃ runs : List (List Glyph), runs.flatten = spelling.glyphs 0 text.toList ∧
      List.Forall₂ (StandsFor file) (rules.lex file text) runs ∧
        ∀ n, rules.items file (runs.drop n).flatten = (rules.lex file text).drop n) ∧
      ∀ ts, rules.tokens? file text = .ok ts →
        String.join (ts.map (·.text)) = String.ofList (spelling.phases text.toList) ∧
          (∀ t ∈ ts, t.location.span.start < t.location.span.stop) ∧
          (ts.Pairwise fun a b => a.location.span.stop ≤ b.location.span.start) ∧
          ∀ before a b behind, ts = before ++ a :: b :: behind →
            ∃ joints, spelling.OnlyJoints joints ∧
              Fills 0 text.toList joints ⟨a.location.span.stop, b.location.span.start⟩ := by
  intro rules
  have hkeep : rules.keepComments = true := rfl
  obtain ⟨runs, hflatten, hruns, hdrop⟩ :=
    items_runs hkeep file (spelling.glyphs 0 text.toList)
  refine ⟨⟨runs, hflatten, hruns, hdrop⟩, fun ts hts => ?_⟩
  have hlaid : spelling.Laid 0 text.toList runs.flatten :=
    hflatten ▸ spelling.glyphs_laid 0 text.toList
  have hitems : rules.items file (spelling.glyphs 0 text.toList) = ts.map .ok :=
    tokens?_eq_ok.mp hts
  rw [hitems] at hruns
  have hspell := spellTokens_of_standsFor hruns
  obtain ⟨hlt, hpair⟩ := pairwise_of_runs hspell (fun g hg => (hlaid.fills g hg).1) hlaid.pairwise
  refine ⟨?_, hlt, hpair, fun before a b behind hsplit => ?_⟩
  · rw [text_of_runs hspell, hflatten, spelling.map_char_glyphs]
  · rw [hsplit] at hspell
    obtain ⟨front, x, y, back, hxy, hstop, hstart⟩ := runs_of_pair hspell
    rw [hstop, hstart]
    exact (hxy ▸ hlaid).between

end LexRules

end GoldenCheck
