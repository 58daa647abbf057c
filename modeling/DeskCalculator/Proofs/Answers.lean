import DeskCalculator.Proofs.EntryCharacters
import DeskCalculator.Proofs.Lines

/-!
# Answers

What the front end prints. It sees of the calculator what it puts on the display only, and types
words, not events; all the same it answers each line with the end of the display of a calculator
that has handled the events of the words so far, and nothing else:

* `Stroke.ofWord`, `Event.ofWords`: what is sent to the calculator for a word, and the events for
  words in turn;
* `screen_strokes`: the screen is the display of the calculator, whatever is sent;
* `foldl_type`: lines are typed as the strokes of their words;
* `Settings.answers`: the answers to lines, by the events of their words;
* `answers_append`: the front end gives these answers, as far as it can read the lines;
* `answer_spec`: an answer is the end of the display, is not empty and is one line;
* `validate_settings`, `runWith_eq_converse`: the settings of a run are in range, and it is such a
  conversation;
* `converse_answers`: all of this for the program.
-/

namespace DeskCalculator

/-- What a keypad sends to the calculator: an event, or a switch of its mode. -/
inductive Stroke where
  | key (event : Event)
  | switch (mode : Mode)
deriving DecidableEq

namespace Stroke

/-- What the calculator does of a stroke. -/
def step [MathLibrary] (c : Calculator) : Stroke → Calculator.Step
  | key event => c.handle event
  | switch mode => c.setMode mode

def event? : Stroke → Option Event
  | key event => some event
  | switch _ => none

/-- The strokes of a word: a switch of the mode, one key, or the keys of those of its characters
that name one. -/
def ofWord (mode : Mode) (word : Text) : List Stroke :=
  match Session.modeWord? word with
  | some m => [switch m]
  | none =>
    match Event.ofKey? mode word with
    | some e => [key e]
    | none => (word.filterMap fun c => Event.ofKey? mode [c]).map key

/-- The strokes of words in turn. The mode is that of the last switch. -/
def ofWords : Mode → List Text → List Stroke
  | _, [] => []
  | mode, word :: words =>
    ofWord mode word ++ ofWords ((Session.modeWord? word).getD mode) words

end Stroke

/-- The events of words in turn, on a keypad that begins in a mode. -/
def Event.ofWords (mode : Mode) (words : List Text) : List Event :=
  (Stroke.ofWords mode words).filterMap Stroke.event?

namespace Settings

variable [MathLibrary]

/-- The display after lines, by the events of all their words. -/
def display (settings : Settings) (lines : List Text) : Text :=
  ((Calculator.new settings.mode settings.precision).after
    (Event.ofWords settings.mode (lines.flatMap Text.words))).display

/-- The end of the display after each of the lines. -/
def answers (settings : Settings) (lines : List Text) : List Text :=
  (List.range lines.length).map fun i =>
    tail (settings.display (lines.take (i + 1))) settings.displayWidth

end Settings

/-! ## The calculator -/

namespace Calculator

/-- The mode of the keypad has no part in what an event does. -/
theorem display_after_setMode [MathLibrary] (c : Calculator) (mode : Mode) (events : List Event) :
    ((c.setMode mode).calculator.after events).display = (c.after events).display :=
  congrArg Entry.text (entry_after_congr (c := (c.setMode mode).calculator) (d := c) rfl rfl events)

end Calculator

/-! ## The session -/

namespace Session

variable [MathLibrary]

/-- A stroke on the keypad. -/
def stroke (s : Session) (k : Stroke) : Session := s.take (k.step s.calculator)

/-- Strokes in turn. -/
def strokes (s : Session) (ks : List Stroke) : Session := ks.foldl stroke s

variable {s : Session}

theorem strokes_append (s : Session) (ks more : List Stroke) :
    s.strokes (ks ++ more) = (s.strokes ks).strokes more := List.foldl_append

/-- A stroke leaves the display of the calculator on the screen: an event puts it there, and a
switch of the mode does not change it. -/
theorem screen_stroke (h : s.screen = s.calculator.display) (k : Stroke) :
    (s.stroke k).screen = (s.stroke k).calculator.display := by
  cases k with
  | key event => rw [stroke, take, Stroke.step, Calculator.shown_handle]; rfl
  | switch mode => exact h

theorem screen_strokes (h : s.screen = s.calculator.display) (ks : List Stroke) :
    (s.strokes ks).screen = (s.strokes ks).calculator.display := by
  induction ks generalizing s with
  | nil => exact h
  | cons k ks ih => exact ih (screen_stroke h k)

/-- The display after strokes is that after their events. -/
theorem display_strokes (s : Session) (ks : List Stroke) :
    (s.strokes ks).calculator.display =
      (s.calculator.after (ks.filterMap Stroke.event?)).display := by
  induction ks generalizing s with
  | nil => rfl
  | cons k ks ih =>
    refine (ih (s.stroke k)).trans ?_
    cases k with
    | key event => rfl
    | switch mode => exact Calculator.display_after_setMode s.calculator mode _

theorem mode_strokes_events (s : Session) (events : List Event) :
    (s.strokes (events.map .key)).calculator.mode = s.calculator.mode := by
  induction events generalizing s with
  | nil => rfl
  | cons e events ih => exact (ih (s.stroke (.key e))).trans (s.calculator.mode_handle e)

/-! ## Typing -/

theorem press_eq {mode : Mode} (h : s.calculator.mode = mode) (key : Text) :
    s.press key = s.strokes ((Event.ofKey? mode key).toList.map .key) := by
  rw [press, h]
  cases Event.ofKey? mode key <;> rfl

/-- Characters are pressed as those of them that name a key. -/
theorem foldl_press {mode : Mode} (h : s.calculator.mode = mode) (word : Text) :
    word.foldl (fun s c => s.press [c]) s =
      s.strokes ((word.filterMap fun c => Event.ofKey? mode [c]).map .key) := by
  induction word generalizing s with
  | nil => rfl
  | cons c word ih =>
    rw [List.foldl_cons, press_eq h [c], ih ((mode_strokes_events s _).trans h), ← strokes_append,
      ← List.map_append]
    congr 2
    rw [List.filterMap_cons]
    cases Event.ofKey? mode [c] <;> rfl

/-- A word is typed as its strokes. -/
theorem typeWord_eq {mode : Mode} (h : s.calculator.mode = mode) (word : Text) :
    s.typeWord word = s.strokes (Stroke.ofWord mode word) := by
  rw [typeWord, Stroke.ofWord, h]
  cases modeWord? word with
  | some m => rfl
  | none =>
    dsimp only
    rw [press_eq h, foldl_press h]
    cases Event.ofKey? mode word <;> rfl

theorem mode_typeWord {mode : Mode} (h : s.calculator.mode = mode) (word : Text) :
    (s.typeWord word).calculator.mode = (modeWord? word).getD mode := by
  rw [typeWord_eq h, Stroke.ofWord]
  cases modeWord? word with
  | some m => rfl
  | none =>
    dsimp only
    cases Event.ofKey? mode word with
    | some e => exact (mode_strokes_events s [e]).trans h
    | none => exact (mode_strokes_events s _).trans h

theorem foldl_typeWord {mode : Mode} (h : s.calculator.mode = mode) (words : List Text) :
    words.foldl typeWord s = s.strokes (Stroke.ofWords mode words) := by
  induction words generalizing s mode with
  | nil => rfl
  | cons word words ih =>
    rw [List.foldl_cons, ih (mode_typeWord h word), typeWord_eq h, ← strokes_append]
    rfl

/-- Lines are typed as the strokes of all their words. -/
theorem foldl_type {mode : Mode} (h : s.calculator.mode = mode) (lines : List Text) :
    lines.foldl type s = s.strokes (Stroke.ofWords mode (lines.flatMap Text.words)) := by
  rw [← foldl_typeWord h, List.foldl_flatMap]
  rfl

/-- The screen after lines. -/
theorem screen_lines (settings : Settings) (lines : List Text) :
    (lines.foldl type (start settings)).screen = settings.display lines := by
  have hmode : (start settings).calculator.mode = settings.mode := rfl
  rw [foldl_type hmode, screen_strokes rfl, display_strokes]
  rfl

/-! ## Answering -/

theorem answers_cons (width : Nat) (s : Session) (text : Text) (rest : List (List UInt8)) :
    answers width s (text.bytes :: rest) =
      ⟨tail (s.type text).screen width :: (answers width (s.type text) rest).answered,
        (answers width (s.type text) rest).complete⟩ := by
  rw [answers, lineText?_eq_some_iff.2 rfl]

/-- Lines that are texts are answered in turn. -/
theorem answers_append (width : Nat) (s : Session) (lines : List Text) (rest : List (List UInt8)) :
    answers width s (lines.map Text.bytes ++ rest) =
      ⟨(List.range lines.length).map
          (fun i => tail ((lines.take (i + 1)).foldl type s).screen width) ++
          (answers width (lines.foldl type s) rest).answered,
        (answers width (lines.foldl type s) rest).complete⟩ := by
  induction lines generalizing s with
  | nil => rfl
  | cons text lines ih =>
    rw [List.map_cons, List.cons_append, answers_cons, ih, List.length_cons,
      List.range_succ_eq_map, List.map_cons, List.map_map]
    rfl

/-- From the start of a session, lines that are texts are answered by their events. -/
theorem answers_start (settings : Settings) (lines : List Text) (rest : List (List UInt8)) :
    (start settings).answers settings.displayWidth (lines.map Text.bytes ++ rest) =
      ⟨settings.answers lines ++
          (answers settings.displayWidth (lines.foldl type (start settings)) rest).answered,
        (answers settings.displayWidth (lines.foldl type (start settings)) rest).complete⟩ := by
  rw [answers_append]
  simp only [screen_lines]
  rfl

end Session

/-! ## The answers -/

namespace Settings

variable [MathLibrary] {settings : Settings}

theorem length_answers (settings : Settings) (lines : List Text) :
    (settings.answers lines).length = lines.length := by
  rw [answers, List.length_map, List.length_range]

theorem display_ne_nil (settings : Settings) (lines : List Text) : settings.display lines ≠ [] :=
  (Calculator.isShaped_events (c := .new settings.mode settings.precision)
    Entry.isShaped_empty _).ne_nil

theorem isBlank_display (settings : Settings) (lines : List Text) :
    ∀ c ∈ settings.display lines, isBlank c = false := fun c hc =>
  (Entry.isBlank_of_isEntryCharacter (Calculator.isEntryCharacter_after _ _ _ c hc)).1

/-- An answer is the end of the display after its line and those before it, as long as fits. It is
not empty, and there is no blank in it, so that it is one line. -/
theorem answer_spec (hwidth : settings.displayWidth ≠ 0) {lines : List Text} {i : Nat}
    {answer : Text} (h : (settings.answers lines)[i]? = some answer) :
    answer <:+ settings.display (lines.take (i + 1)) ∧
      answer.length =
        min settings.displayWidth (settings.display (lines.take (i + 1))).length ∧
      1 ≤ answer.length ∧ ∀ c ∈ answer, isBlank c = false := by
  rw [answers, List.getElem?_map, Option.map_eq_some_iff] at h
  obtain ⟨j, hj, rfl⟩ := h
  obtain ⟨_, rfl⟩ := List.getElem?_eq_some_iff.1 hj
  rw [List.getElem_range]
  have hsuffix := tail_suffix (settings.display (lines.take (i + 1))) settings.displayWidth
  have hlen := length_tail (settings.display (lines.take (i + 1))) settings.displayWidth
  have hpos := List.length_pos_of_ne_nil (settings.display_ne_nil (lines.take (i + 1)))
  refine ⟨hsuffix, hlen, by omega, fun c hc => ?_⟩
  exact settings.isBlank_display _ c (hsuffix.subset hc)

end Settings

namespace Program

variable {settings : Settings}

theorem mapError_eq_ok_iff {α ε ε' : Type} {x : Except ε α} {f : ε → ε'} {a : α} :
    x.mapError f = .ok a ↔ x = .ok a := by
  cases x with
  | error e => simp only [Except.mapError, reduceCtorEq]
  | ok b => simp only [Except.mapError, Except.ok.injEq]

/-- The settings of a run are in range. -/
theorem validate_settings {readers : Readers} {options : Options}
    {read : String → Except FileError Text}
    (h : Program.settings readers options read = .ok settings) :
    settings.validate = .ok settings := by
  have hvalid : ∀ base : Settings,
      (options.apply base).validate.mapError Failure.options = .ok settings →
        settings.validate = .ok settings := by
    intro base hbase
    have hv := mapError_eq_ok_iff.1 hbase
    obtain ⟨rfl, -⟩ := Settings.validate_eq_ok_iff.1 hv
    exact hv
  unfold Program.settings at h
  split at h
  · next path hpath =>
    cases hfile : (fileSettings readers (read path)).mapError (Failure.settingsFile path) with
    | error failure => rw [hfile] at h; cases h
    | ok base => rw [hfile] at h; exact hvalid base h
  · exact hvalid _ h

section

variable [MathLibrary]

theorem converse_texts (settings : Settings) (text : Text) :
    converse settings text.bytes = .ran (settings.answers text.lines) none := by
  have h := Session.answers_start settings text.lines []
  rw [List.append_nil, ← Session.lines_bytes] at h
  rw [converse, h]
  simp only [Session.answers, List.append_nil, if_true]

theorem converse_until {input : List UInt8} {lines : List Text} {bad : List UInt8}
    {later : List (List UInt8)}
    (hinput : Session.lines input = lines.map Text.bytes ++ bad :: later)
    (hbad : ∀ text : Text, bad ≠ text.bytes) :
    converse settings input = .ran (settings.answers lines) (some .input) := by
  rw [converse, hinput, Session.answers_start, Session.answers,
    Session.lineText?_eq_none_iff.2 hbad]
  simp only [List.append_nil, Bool.false_eq_true, if_false]

/-- Each answer is one line of the output. -/
theorem lines_output (hwidth : settings.displayWidth ≠ 0) (lines : List Text)
    (failure : Option Failure) :
    Text.lines (Report.ran (settings.answers lines) failure).output.toList =
      settings.answers lines := by
  rw [Report.output, String.toList_ofList]
  refine Text.lines_unlines fun answer h hmem => ?_
  obtain ⟨i, hi⟩ := List.mem_iff_getElem?.1 h
  have hblank := (Settings.answer_spec hwidth hi).2.2.2 _ hmem
  exact absurd hblank (by decide)

/-- A run that neither stops early nor fails over its settings is a conversation. -/
theorem runWith_eq_converse {readers : Readers} {arguments : List String}
    {read : String → Except FileError Text} {options : Options}
    (hoptions : readers.options arguments = .ok options)
    (hsettings : Program.settings readers options read = .ok settings) (input : List UInt8) :
    runWith readers arguments read input = converse settings input := by
  simp only [runWith, hoptions, hsettings]

/-- **The front end prints the end of the display, line by line.** With settings in range:

* the lines of a text are answered one by one, and the run succeeds whatever is evaluated;
* a line that is no text ends the run, after the answers to the lines before it;
* each line has an answer, the longest end of the display after it that fits, which is not empty and
  has no line break;
* typing lines sends the strokes of their words, and nothing else;
* whatever is sent to the calculator, the screen is its display, where each event puts the entry
  that it leaves, once, and a switch of the mode nothing;
* however arguments and settings files are read, a run of the program that begins to answer has
  settings in range and is such a conversation. -/
theorem converse_answers (h : settings.validate = .ok settings) :
    (∀ text : Text,
      converse settings text.bytes = .ran (settings.answers text.lines) none ∧
        (converse settings text.bytes).exitCode = 0 ∧
        Text.lines (converse settings text.bytes).output.toList = settings.answers text.lines) ∧
      (∀ (input : List UInt8) (lines : List Text) (bad : List UInt8) (later : List (List UInt8)),
        Session.lines input = lines.map Text.bytes ++ bad :: later →
        (∀ text : Text, bad ≠ text.bytes) →
          converse settings input = .ran (settings.answers lines) (some .input) ∧
            (converse settings input).exitCode = 1 ∧
            Text.lines (converse settings input).output.toList = settings.answers lines) ∧
      (∀ lines : List Text, (settings.answers lines).length = lines.length ∧
        ∀ i answer, (settings.answers lines)[i]? = some answer →
          answer <:+ settings.display (lines.take (i + 1)) ∧
            answer.length =
              min settings.displayWidth (settings.display (lines.take (i + 1))).length ∧
            1 ≤ answer.length ∧ ∀ c ∈ answer, isBlank c = false) ∧
      (∀ lines : List Text, lines.foldl Session.type (.start settings) =
        (Session.start settings).strokes
          (Stroke.ofWords settings.mode (lines.flatMap Text.words))) ∧
      (∀ ks : List Stroke, let s := (Session.start settings).strokes ks
        s.screen = s.calculator.display ∧
          (∀ event, (s.calculator.handle event).shown =
            [(s.calculator.handle event).calculator.display]) ∧
          ∀ mode, (s.calculator.setMode mode).shown = [] ∧
            (s.calculator.setMode mode).calculator.display = s.calculator.display) ∧
      ∀ (readers : Readers) arguments read options s, readers.options arguments = .ok options →
        Program.settings readers options read = .ok s →
          s.validate = .ok s ∧
            ∀ input, runWith readers arguments read input = converse s input := by
  have hwidth : settings.displayWidth ≠ 0 := (Settings.validate_eq_ok_iff.1 h).2.2
  refine ⟨fun text => ?_, fun input lines bad later hinput hbad => ?_, fun lines => ?_,
    Session.foldl_type rfl, fun ks => ?_, fun readers arguments read options s hoptions hsettings =>
      ⟨validate_settings hsettings, runWith_eq_converse hoptions hsettings⟩⟩
  · rw [converse_texts]
    exact ⟨rfl, rfl, lines_output hwidth _ _⟩
  · rw [converse_until hinput hbad]
    exact ⟨rfl, rfl, lines_output hwidth _ _⟩
  · exact ⟨settings.length_answers lines, fun i answer => Settings.answer_spec hwidth⟩
  · have hscreen := Session.screen_strokes (s := .start settings) rfl ks
    exact ⟨hscreen, Calculator.shown_handle _, fun mode => ⟨rfl, rfl⟩⟩

end

/-- A display of three characters, and an input whose second line is no text. -/
theorem converse_narrow :
    (⟨.standard, 8, 3⟩ : Settings).validate = .ok ⟨.standard, 8, 3⟩ ∧
      converse ⟨.standard, 8, 3⟩ (Text.bytes "2+3 =\n:scientific sin\n=".toList) =
        .ran ["5".toList, "in(".toList, "ror".toList] none ∧
      converse ⟨.standard, 8, 3⟩ [0x32, 0x0a, 0x3d, 0xff, 0x0a, 0x33] =
        .ran ["2".toList] (some .input) := by
  have hvalid : (⟨.standard, 8, 3⟩ : Settings).validate = .ok ⟨.standard, 8, 3⟩ := by decide
  have hbad : ∀ text : Text, ([0x3d, 0xff] : List UInt8) ≠ text.bytes :=
    Session.lineText?_eq_none_iff.1 (by decide +kernel)
  have hinput : Session.lines [0x32, 0x0a, 0x3d, 0xff, 0x0a, 0x33] =
      ["2".toList].map Text.bytes ++ [0x3d, 0xff] :: [[0x33]] := by decide +kernel
  obtain ⟨hread, huntil, -⟩ := converse_answers hvalid
  refine ⟨hvalid, ?_, ?_⟩
  · rw [(hread _).1]
    decide +kernel
  · rw [(huntil _ _ _ _ hinput hbad).1]
    decide +kernel

end Program

end DeskCalculator
