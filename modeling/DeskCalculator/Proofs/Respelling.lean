import DeskCalculator.Expr
import DeskCalculator.Proofs.Scanning
import Mathlib.Logic.Relation

/-!
# Spelling does not change meaning

A text can be spelled in several ways: with more blanks or fewer, with the glyphs of the keypad or
the characters of a keyboard, with `π` or its name. All of them are scanned as the same tokens up to
the same fault, so that even a malformed text has the same error however it is spelled:

* `standsAlone`, `MayPart`: where blanks may be added;
* `Respells`: one change of spelling, at any place of a text;
* `scan_part`: blanks between texts that do not run together are not seen;
* `scan_congr`: what is scanned alike may be exchanged behind a text that does not run together
  with it;
* `parse_respelled`: any number of changes leaves the tree, or the error.
-/

namespace DeskCalculator.Token

/-- A character that is a token by itself, whatever is next to it. -/
def standsAlone (c : Char) : Bool :=
  ['+', '-', '*', '/', '%', '^', '−', '×', '÷', '(', ')', 'π'].contains c

/-- Blanks may be added between two texts: at an end of the whole text, or next to a character that
stands alone. -/
def MayPart (before after : Text) : Prop :=
  before = [] ∨ after = [] ∨ (∃ c ∈ before.getLast?, standsAlone c = true) ∨
    ∃ c ∈ after.head?, standsAlone c = true

/-- One change of spelling between what is before it and what is after it. -/
inductive Respells : Text → Text → Prop where
  /-- Some blanks are replaced by some others. -/
  | blanks {before blanks others after : Text} : (∀ c ∈ blanks, isBlank c = true) →
      (∀ c ∈ others, isBlank c = true) → blanks ≠ [] → others ≠ [] →
      Respells (before ++ blanks ++ after) (before ++ others ++ after)
  /-- Blanks are added. -/
  | part {before blanks after : Text} : (∀ c ∈ blanks, isBlank c = true) → MayPart before after →
      Respells (before ++ after) (before ++ blanks ++ after)
  /-- Blanks are removed, and the characters that were parted do not run together. -/
  | join {before blanks after : Text} : (∀ c ∈ blanks, isBlank c = true) → Ends before after →
      Respells (before ++ blanks ++ after) (before ++ after)
  /-- A glyph is replaced by the character of its operator. -/
  | glyph {before after : Text} {glyph c : Char} :
      (glyph, c) ∈ [('−', '-'), ('×', '*'), ('÷', '/')] →
      Respells (before ++ glyph :: after) (before ++ c :: after)
  /-- A `π` that touches no letter is replaced by its name. -/
  | pi {before after : Text} : (∀ c ∈ before.getLast?, c.isAlpha = false) →
      (∀ c ∈ after.head?, c.isAlpha = false) →
      Respells (before ++ 'π' :: after) (before ++ 'p' :: 'i' :: after)

/-! ## Where texts do not run together -/

theorem symbol_of_standsAlone {c : Char} (h : standsAlone c = true) :
    isNumberPart c = false ∧ c.isAlpha = false := by
  have hall : ∀ d ∈ ['+', '-', '*', '/', '%', '^', '−', '×', '÷', '(', ')', 'π'],
      isNumberPart d = false ∧ d.isAlpha = false := forall_mem_of_all (by decide)
  exact hall c (List.contains_iff_mem.1 h)

theorem symbol_of_isBlank {c : Char} (h : isBlank c = true) :
    isNumberPart c = false ∧ c.isAlpha = false := by
  constructor <;> refine Bool.eq_false_iff.2 fun hc => ?_
  · rw [isBlank_eq_false_of_isNumberPart hc] at h
    cases h
  · rw [isBlank_eq_false_of_isAlpha hc] at h
    cases h

/-- Nothing runs together with a symbol before it. -/
theorem ends_after_symbol {text : Text} {c : Char} (hc : c ∈ text.getLast?)
    (h : isNumberPart c = false) (h' : c.isAlpha = false) (rest : Text) : Ends text rest := by
  intro a ha
  obtain rfl := Option.mem_unique ha hc
  exact ends_symbol h h' rest a rfl

theorem MayPart.ends {before after : Text} (h : MayPart before after) : Ends before after := by
  rcases h with rfl | rfl | ⟨c, hc, halone⟩ | ⟨c, hc, halone⟩
  · nofun
  · exact ends_nil before
  · obtain ⟨hn, ha⟩ := symbol_of_standsAlone halone
    exact ends_after_symbol hc hn ha after
  · obtain ⟨hn, ha⟩ := symbol_of_standsAlone halone
    obtain ⟨rest, rfl⟩ := List.head?_eq_some_iff.1 hc
    exact ends_before_symbol hn ha before rest

theorem ends_blanks {blanks : Text} (h : ∀ c ∈ blanks, isBlank c = true) (hne : blanks ≠ [])
    (before after : Text) : Ends before (blanks ++ after) := by
  obtain ⟨c, rest, rfl⟩ := List.exists_cons_of_ne_nil hne
  obtain ⟨hn, ha⟩ := symbol_of_isBlank (h c List.mem_cons_self)
  exact ends_before_symbol hn ha before (rest ++ after)

/-! ## Scanning both spellings -/

/-- What is scanned alike may be exchanged where nothing runs together. -/
theorem scan_congr {before first second : Text} (hfirst : Ends before first)
    (hsecond : Ends before second) (h : scan first = scan second) :
    scan (before ++ first) = scan (before ++ second) := by
  rw [scan_append hfirst, scan_append hsecond, h]

theorem scan_blanks {blanks : Text} (h : ∀ c ∈ blanks, isBlank c = true) (after : Text) :
    scan (blanks ++ after) = scan after := by
  induction blanks with
  | nil => rfl
  | cons c blanks ih =>
    obtain ⟨hc, hblanks⟩ := List.forall_mem_cons.1 h
    rw [List.cons_append, scan_blank hc, ih hblanks]

/-- Blanks between texts that do not run together are not seen. -/
theorem scan_part {before blanks after : Text} (h : ∀ c ∈ blanks, isBlank c = true)
    (hends : Ends before after) : scan (before ++ blanks ++ after) = scan (before ++ after) := by
  by_cases hne : blanks = []
  · rw [hne, List.append_nil]
  · rw [List.append_assoc]
    exact scan_congr (ends_blanks h hne before after) hends (scan_blanks h after)

/-- Two symbols of one meaning are scanned alike. -/
theorem scan_symbol {c d : Char} (hc : isNumberPart c = false ∧ c.isAlpha = false)
    (hd : isNumberPart d = false ∧ d.isAlpha = false) (hblank : isBlank c = isBlank d)
    (h : ofSymbol c = ofSymbol d) (after : Text) : scan (c :: after) = scan (d :: after) := by
  rw [scan, scan, lexeme_symbol hc.1 hc.2, lexeme_symbol hd.1 hd.2, hblank, h]

/-- The name of `π` is scanned like its symbol. -/
theorem scan_pi {after : Text} (h : ∀ c ∈ after.head?, c.isAlpha = false) :
    scan ('π' :: after) = scan ('p' :: 'i' :: after) := by
  have hname : ∀ c ∈ ['p', 'i'], c.isAlpha = true := forall_mem_of_all (by decide)
  have hends : Ends ['p', 'i'] after := ends_of_class hname h fun _ _ => alpha_of_runTogether
  obtain ⟨c, l, he, hb, hl⟩ := lexeme_of_spells (.constant (mem_constantNames.2 (.inr ⟨rfl, rfl⟩))) hends
  cases he
  rw [scan_cons (by decide) (lexeme_symbol (c := 'π') (by decide) (by decide) after)]
  exact (scan_cons hb hl).symm

/-- A change of spelling leaves the tokens, and the first fault. -/
theorem scan_eq_of_respells {text respelled : Text} (h : Respells text respelled) :
    scan text = scan respelled := by
  cases h with
  | @blanks before blanks others after hblanks hothers hne hne' =>
    rw [List.append_assoc, List.append_assoc]
    refine scan_congr (ends_blanks hblanks hne _ _) (ends_blanks hothers hne' _ _) ?_
    rw [scan_blanks hblanks, scan_blanks hothers]
  | part hblanks hpart => exact (scan_part hblanks hpart.ends).symm
  | join hblanks hends => exact scan_part hblanks hends
  | @glyph before after g c hglyph =>
    have hsymbols : ∀ pair ∈ [('−', '-'), ('×', '*'), ('÷', '/')],
        (isNumberPart pair.1 = false ∧ pair.1.isAlpha = false) ∧
          (isNumberPart pair.2 = false ∧ pair.2.isAlpha = false) ∧
          isBlank pair.1 = isBlank pair.2 ∧ ofSymbol pair.1 = ofSymbol pair.2 := by decide
    obtain ⟨hg, hc, hblank, hmeaning⟩ := hsymbols (g, c) hglyph
    exact scan_congr (ends_before_symbol hg.1 hg.2 before after)
      (ends_before_symbol hc.1 hc.2 before after) (scan_symbol hg hc hblank hmeaning after)
  | @pi before after hbefore hafter =>
    -- the symbol runs together with nothing, its name with a letter before it
    refine scan_congr (ends_before_symbol (by decide) (by decide) before after) ?_ (scan_pi hafter)
    intro c hc d hd hrun
    obtain rfl := Option.mem_some_iff.1 hd
    rcases hrun with ⟨-, hpart⟩ | ⟨halpha, -⟩
    · exact absurd hpart (by decide)
    · rw [hbefore c hc] at halpha
      cases halpha

/-- However a text is respelled, it is the same expression, or has the same syntax error. -/
theorem parse_respelled {text respelled : Text}
    (h : Relation.ReflTransGen Respells text respelled) :
    Expr.parse text = Expr.parse respelled := by
  have hscan : scan text = scan respelled := by
    induction h with
    | refl => rfl
    | tail _ hstep ih => exact ih.trans (scan_eq_of_respells hstep)
  rw [Expr.parse, Expr.parse, arrange, arrange, hscan]

/-- A blank, a glyph and `π` before an unexpected character. -/
theorem parse_respelled_unexpected :
    Relation.ReflTransGen Respells ['2', ' ', '×', 'π', '?'] ['2', '*', 'p', 'i', '?'] ∧
      Expr.parse ['2', ' ', '×', 'π', '?'] = Expr.parse ['2', '*', 'p', 'i', '?'] ∧
      Expr.parse ['2', ' ', '×', 'π', '?'] = .error (.unexpectedCharacter '?') := by
  have hjoin : Respells (['2'] ++ [' '] ++ ['×', 'π', '?']) (['2'] ++ ['×', 'π', '?']) :=
    .join (forall_mem_of_all (by decide)) (ends_before_symbol (by decide) (by decide) _ _)
  have hglyph : Respells (['2'] ++ '×' :: ['π', '?']) (['2'] ++ '*' :: ['π', '?']) :=
    .glyph (by decide)
  have hpi : Respells (['2', '*'] ++ 'π' :: ['?']) (['2', '*'] ++ 'p' :: 'i' :: ['?']) :=
    .pi (by rintro _ ⟨⟩; decide) (by rintro _ ⟨⟩; decide)
  have h : Relation.ReflTransGen Respells ['2', ' ', '×', 'π', '?'] ['2', '*', 'p', 'i', '?'] :=
    ((Relation.ReflTransGen.single hjoin).tail hglyph).tail hpi
  exact ⟨h, parse_respelled h, by decide +kernel⟩

end DeskCalculator.Token
