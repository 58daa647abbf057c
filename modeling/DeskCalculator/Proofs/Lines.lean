import DeskCalculator.Terminal.Program

/-!
# Lines

The front end takes its input apart into lines of bytes and reads each of them as UTF-8. No byte of
a character but the newline is the byte of a newline, so on the bytes of a text this gives the bytes
of its lines:

* `Text.bytes`, `Text.lines`: the bytes and the lines of a text;
* `lineText?_eq_some_iff`: a line of bytes is read as a text if it is the bytes of this text;
* `lines_bytes`: the lines of the bytes of a text are the bytes of its lines;
* `Text.lines_unlines`: lines that are written one after another are these lines again.
-/

namespace DeskCalculator

variable {α : Type}

/-- Lines with a piece in front of the first. -/
def extendFirst (piece : List α) : List (List α) → List (List α)
  | [] => [piece]
  | line :: rest => (piece ++ line) :: rest

theorem extendFirst_append (a b : List α) (lines : List (List α)) :
    extendFirst (a ++ b) lines = extendFirst a (extendFirst b lines) := by
  cases lines with
  | nil => rfl
  | cons line rest => rw [extendFirst, List.append_assoc]; rfl

namespace Text

/-- The bytes of a text in UTF-8. -/
def bytes (text : Text) : List UInt8 := text.flatMap String.utf8EncodeChar

/-- The lines of a text. The last one need not be ended. -/
def lines : Text → List Text
  | [] => []
  | c :: text => if c = '\n' then [] :: lines text else extendFirst [c] (lines text)

/-- Lines one after another, each of them ended. -/
def unlines (lines : List Text) : Text := lines.flatMap (· ++ ['\n'])

theorem lines_newline (text : Text) : lines ('\n' :: text) = [] :: lines text := rfl

theorem lines_cons {c : Char} (hc : c ≠ '\n') (text : Text) :
    lines (c :: text) = extendFirst [c] (lines text) := if_neg hc

theorem lines_line {line : Text} (h : '\n' ∉ line) (text : Text) :
    lines (line ++ '\n' :: text) = line :: lines text := by
  induction line with
  | nil => rfl
  | cons c line ih =>
    rw [List.mem_cons, not_or] at h
    obtain ⟨hc, hline⟩ := h
    rw [List.cons_append, lines_cons (Ne.symm hc), ih hline]
    rfl

theorem lines_unlines {answers : List Text} (h : ∀ line ∈ answers, '\n' ∉ line) :
    lines (unlines answers) = answers := by
  induction answers with
  | nil => rfl
  | cons line answers ih =>
    obtain ⟨hline, hrest⟩ := List.forall_mem_cons.1 h
    have hcons : unlines (line :: answers) = line ++ '\n' :: unlines answers := by
      rw [unlines, List.flatMap_cons, List.append_assoc]
      rfl
    rw [hcons, lines_line hline, ih hrest]

/-! ## Bytes -/

theorem bytes_cons (c : Char) (text : Text) :
    bytes (c :: text) = String.utf8EncodeChar c ++ bytes text := List.flatMap_cons

theorem toByteArray_bytes (text : Text) :
    text.bytes.toByteArray = (String.ofList text).toByteArray :=
  String.toByteArray_ofList.symm

/-- All bytes of a character outside ASCII have their top bit. -/
theorem newline_notMem {c : Char} (hc : c ≠ '\n') : (0x0a : UInt8) ∉ String.utf8EncodeChar c := by
  have hval : c.val.toNat ≠ 10 := fun h => hc (Char.ext (UInt32.toNat_inj.1 h))
  have hne : ∀ n : Nat, n % 256 ≠ 10 → (0x0a : UInt8) ≠ UInt8.ofNat n := by
    intro n hn h
    exact hn (by simpa using (congrArg UInt8.toNat h).symm)
  unfold String.utf8EncodeChar
  simp only
  repeat' split
  all_goals simp only [List.mem_cons, List.not_mem_nil, or_false, not_or]
  · exact hne _ (by omega)
  · exact ⟨hne _ (by omega), hne _ (by omega)⟩
  · exact ⟨hne _ (by omega), hne _ (by omega), hne _ (by omega)⟩
  · exact ⟨hne _ (by omega), hne _ (by omega), hne _ (by omega), hne _ (by omega)⟩

end Text

namespace Session

/-! ## Lines of bytes -/

theorem lines_eq {input : List UInt8} {pieces : List (List UInt8)}
    (h : input.splitOnP (· = 0x0a) = pieces) :
    lines input = if pieces.getLast? = some [] then pieces.dropLast else pieces := by
  rw [lines, h]

theorem exists_splitOnP (input : List UInt8) :
    ∃ piece rest, input.splitOnP (· = 0x0a) = piece :: rest :=
  List.exists_cons_of_ne_nil (List.splitOnP_ne_nil _ _)

theorem lines_newline (input : List UInt8) : lines (0x0a :: input) = [] :: lines input := by
  obtain ⟨piece, rest, h⟩ := exists_splitOnP input
  have hcons : (0x0a :: input).splitOnP (· = 0x0a) = [] :: piece :: rest := by
    rw [List.splitOnP_cons_eq_if_modifyHead, h]
    rfl
  rw [lines_eq h, lines_eq hcons, List.getLast?_cons_cons, List.dropLast_cons_cons]
  split <;> rfl

theorem lines_cons {b : UInt8} (hb : b ≠ 0x0a) (input : List UInt8) :
    lines (b :: input) = extendFirst [b] (lines input) := by
  obtain ⟨piece, rest, h⟩ := exists_splitOnP input
  have hcons : (b :: input).splitOnP (· = 0x0a) = (b :: piece) :: rest := by
    rw [List.splitOnP_cons_eq_if_modifyHead, h, if_neg (by simpa using hb)]
    rfl
  rw [lines_eq h, lines_eq hcons]
  cases rest with
  | nil => cases piece <;> rfl
  | cons next rest =>
    rw [List.getLast?_cons_cons, List.getLast?_cons_cons, List.dropLast_cons_cons,
      List.dropLast_cons_cons]
    split <;> rfl

theorem lines_append {piece : List UInt8} (hne : piece ≠ []) (h : (0x0a : UInt8) ∉ piece)
    (input : List UInt8) : lines (piece ++ input) = extendFirst piece (lines input) := by
  induction piece with
  | nil => exact absurd rfl hne
  | cons b piece ih =>
    rw [List.mem_cons, not_or] at h
    obtain ⟨hb, hpiece⟩ := h
    rw [List.cons_append, lines_cons (Ne.symm hb)]
    cases piece with
    | nil => rfl
    | cons b' piece =>
      rw [ih (List.cons_ne_nil _ _) hpiece, ← extendFirst_append]
      rfl

theorem map_bytes_extendFirst (c : Char) (lines : List Text) :
    (extendFirst [c] lines).map Text.bytes =
      extendFirst (String.utf8EncodeChar c) (lines.map Text.bytes) := by
  cases lines with
  | nil => simp [extendFirst, Text.bytes]
  | cons line rest => rfl

/-- The lines of the bytes of a text are the bytes of its lines. -/
theorem lines_bytes (text : Text) : lines text.bytes = (Text.lines text).map Text.bytes := by
  induction text with
  | nil => rfl
  | cons c text ih =>
    rw [Text.bytes_cons]
    by_cases hc : c = '\n'
    · subst hc
      rw [show String.utf8EncodeChar '\n' = [0x0a] by decide, List.singleton_append, lines_newline,
        ih, Text.lines_newline]
      rfl
    · rw [lines_append String.utf8EncodeChar_ne_nil (Text.newline_notMem hc), ih,
        Text.lines_cons hc, map_bytes_extendFirst]

/-! ## UTF-8 -/

theorem fromUTF8?_eq_some_iff {b : ByteArray} {s : String} :
    String.fromUTF8? b = some s ↔ s.toByteArray = b := by
  unfold String.fromUTF8?
  split
  · next hb =>
    rw [Option.some.injEq, ← String.toByteArray_inj, eq_comm]
    rfl
  · next hb =>
    simp only [reduceCtorEq, false_iff]
    rintro rfl
    exact hb s.isValidUTF8

/-- A line of bytes is read as a text if it is the bytes of this text. -/
theorem lineText?_eq_some_iff {line : List UInt8} {text : Text} :
    lineText? line = some text ↔ line = text.bytes := by
  have hline : (⟨line.toArray⟩ : ByteArray) = line.toByteArray :=
    ByteArray.ext List.data_toByteArray.symm
  rw [lineText?, Option.map_eq_some_iff, hline]
  constructor
  · rintro ⟨s, hs, rfl⟩
    rw [fromUTF8?_eq_some_iff] at hs
    rw [← List.toByteArray_inj, ← hs, Text.toByteArray_bytes, String.ofList_toList]
  · rintro rfl
    exact ⟨String.ofList text, fromUTF8?_eq_some_iff.2 (Text.toByteArray_bytes text).symm,
      String.toList_ofList⟩

theorem lineText?_eq_none_iff {line : List UInt8} :
    lineText? line = none ↔ ∀ text : Text, line ≠ text.bytes := by
  rw [Option.eq_none_iff_forall_ne_some]
  exact forall_congr' fun text => not_congr lineText?_eq_some_iff

end Session

end DeskCalculator
