import DeskCalculator.Proofs.Characters
import DeskCalculator.Token.Spelling

/-!
# Scanning reads longest lexemes

The scanner, where it meets no fault, gives exactly the tokens that a text spells when blanks are
skipped and every lexeme is as long as it can be:

* `ofText?_eq_some_iff`: a decimal is read from literals only, and is the one of their digits;
* `spells_of_lexeme`, `lexeme_of_spells`: a lexeme that the scanner finds spells its token, and a lexeme
  that cannot be prolonged is found;
* `scan_eq_iff_reads`: the same of whole texts;
* `exists_reads_of_prefix`: the first tokens of a malformed text;
* `scan_append`, `Reads.append`, `Reads.binary`: texts side by side, and with an operator between;
* `Reads.last_lexeme`: the lexeme at the end of a text.
-/

namespace DeskCalculator.Token

/-! ## Number literals -/

/-- A literal without a point. -/
theorem isLiteral_digits {whole : Text} (h : ∀ c ∈ whole, c.isDigit = true) :
    IsLiteral whole ↔ whole ≠ [] := by
  have hc : whole.count '.' = 0 :=
    List.count_eq_zero.2 fun hm => ne_point_of_isDigit (h _ hm) rfl
  constructor
  · rintro ⟨-, ⟨c, hc, -⟩, -⟩
    exact List.ne_nil_of_mem hc
  · intro hne
    obtain ⟨c, rest, rfl⟩ := List.exists_cons_of_ne_nil hne
    exact ⟨fun d hd => .inr (h d hd), ⟨c, by simp, h c (by simp)⟩, by omega⟩

/-- A literal with a point. -/
theorem isLiteral_point {whole fraction : Text} (h : ∀ c ∈ whole, c.isDigit = true) :
    IsLiteral (whole ++ '.' :: fraction) ↔
      fraction.all Char.isDigit = true ∧ whole ++ fraction ≠ [] := by
  have hw : whole.count '.' = 0 :=
    List.count_eq_zero.2 fun hm => ne_point_of_isDigit (h _ hm) rfl
  constructor
  · rintro ⟨hp, ⟨c, hc, hd⟩, hn⟩
    rw [List.count_append, List.count_cons_self, hw] at hn
    have hf : '.' ∉ fraction := List.count_eq_zero.1 (by omega)
    refine ⟨List.all_eq_true.2 fun d hd => ?_, List.ne_nil_of_mem (a := c) ?_⟩
    · exact (hp d (by simp [hd])).resolve_left fun he => hf (he ▸ hd)
    · have := ne_point_of_isDigit hd
      simpa [this] using hc
  · rintro ⟨hf, hne⟩
    rw [List.all_eq_true] at hf
    have hfc : fraction.count '.' = 0 :=
      List.count_eq_zero.2 fun hm => ne_point_of_isDigit (hf _ hm) rfl
    have hdigit : ∀ c ∈ whole ++ fraction, c.isDigit = true := fun c hc =>
      (List.mem_append.1 hc).elim (h c) (hf c)
    refine ⟨fun c hc => ?_, ?_, by rw [List.count_append, List.count_cons_self]; omega⟩
    · rcases List.mem_append.1 hc with hc | hc
      · exact .inr (h c hc)
      · exact (List.mem_cons.1 hc).imp_right (hf c)
    · obtain ⟨c, rest, he⟩ := List.exists_cons_of_ne_nil hne
      have hc : c ∈ whole ++ fraction := by simp [he]
      refine ⟨c, ?_, hdigit c hc⟩
      rcases List.mem_append.1 hc with hc | hc <;> simp [hc]

/-- The digits of a literal begin it, and a point follows them if anything does. -/
theorem digits_or_point {literal : Text} (h : ∀ c ∈ literal, isNumberPart c = true) :
    (∀ c ∈ literal, c.isDigit = true) ∨
      ∃ whole fraction, literal = whole ++ '.' :: fraction ∧ ∀ c ∈ whole, c.isDigit = true := by
  have hl := List.takeWhile_append_dropWhile (p := Char.isDigit) (l := literal)
  have hw : ∀ c ∈ literal.takeWhile Char.isDigit, c.isDigit = true :=
    fun c hc => List.mem_takeWhile_imp hc
  cases hd : literal.dropWhile Char.isDigit with
  | nil =>
    rw [hd, List.append_nil] at hl
    exact .inl (hl ▸ hw)
  | cons point fraction =>
    have h1 : point.isDigit = false :=
      head?_dropWhile (p := Char.isDigit) (l := literal) point (by rw [hd]; rfl)
    have h2 := h point (List.dropWhile_subset _ (hd ▸ List.mem_cons_self))
    have hpoint : point = '.' := by simpa [isNumberPart, h1] using h2
    exact .inr ⟨_, fraction, by rw [← hpoint, ← hd, hl], hw⟩

theorem literalDecimal_digits {whole : Text} (h : ∀ c ∈ whole, c.isDigit = true) :
    literalDecimal whole = Decimal.ofDigits whole [] := by
  have hd : whole.dropWhile (· ≠ '.') = [] :=
    List.dropWhile_eq_nil_iff.2 fun c hc => by simpa using ne_point_of_isDigit (h c hc)
  rw [literalDecimal, hd, List.filter_eq_self.2 h, Decimal.ofDigits, List.append_nil]
  rfl

theorem literalDecimal_point {whole fraction : Text} (h : ∀ c ∈ whole, c.isDigit = true)
    (hf : ∀ c ∈ fraction, c.isDigit = true) :
    literalDecimal (whole ++ '.' :: fraction) = Decimal.ofDigits whole fraction := by
  have hd : (whole ++ '.' :: fraction).dropWhile (· ≠ '.') = '.' :: fraction := by
    rw [List.dropWhile_append_of_pos fun c hc => by simpa using ne_point_of_isDigit (h c hc)]
    rfl
  have hfilter : (whole ++ '.' :: fraction).filter Char.isDigit = whole ++ fraction := by
    rw [List.filter_append, List.filter_cons_of_neg (by decide), List.filter_eq_self.2 h,
      List.filter_eq_self.2 hf]
  rw [literalDecimal, hd, hfilter, Decimal.ofDigits, List.tail_cons]

theorem ofText?_digits {whole : Text} (h : ∀ c ∈ whole, c.isDigit = true) :
    Decimal.ofText? whole = if whole = [] then none else some (.ofDigits whole []) := by
  have ht : whole.takeWhile Char.isDigit = whole := List.takeWhile_eq_self_iff.2 h
  have hd : whole.dropWhile Char.isDigit = [] := List.dropWhile_eq_nil_iff.2 h
  simp only [Decimal.ofText?, ht, hd]

theorem ofText?_point {whole fraction : Text} (h : ∀ c ∈ whole, c.isDigit = true) :
    Decimal.ofText? (whole ++ '.' :: fraction) =
      if fraction.all Char.isDigit = true ∧ whole ++ fraction ≠ [] then
        some (.ofDigits whole fraction)
      else none := by
  obtain ⟨ht, hd⟩ := takeWhile_boundary h (r := '.' :: fraction) (by rintro _ ⟨⟩; decide)
  simp only [Decimal.ofText?, ht, hd, true_and]

/-- A decimal is read from literals only, and is the one of their digits. -/
theorem ofText?_eq_some_iff {literal : Text} {d : Decimal}
    (h : ∀ c ∈ literal, isNumberPart c = true) :
    Decimal.ofText? literal = some d ↔ IsLiteral literal ∧ d = literalDecimal literal := by
  rcases digits_or_point h with hw | ⟨whole, fraction, rfl, hw⟩
  · rw [ofText?_digits hw, isLiteral_digits hw, literalDecimal_digits hw]
    by_cases hne : literal = []
    · simp [hne]
    · simp [hne, eq_comm]
  · rw [ofText?_point hw, isLiteral_point hw]
    by_cases hf : fraction.all Char.isDigit = true ∧ whole ++ fraction ≠ []
    · rw [if_pos hf, literalDecimal_point hw (List.all_eq_true.1 hf.1), Option.some_inj, eq_comm]
      exact (and_iff_right hf).symm
    · rw [if_neg hf]
      exact iff_of_false nofun fun hd => hf hd.1

theorem IsLiteral.isNumberPart {literal : Text} (h : IsLiteral literal) :
    ∀ c ∈ literal, isNumberPart c = true :=
  fun c hc => isNumberPart_eq_true_iff.2 (h.1 c hc)

theorem IsLiteral.ne_nil {literal : Text} (h : IsLiteral literal) : literal ≠ [] := by
  obtain ⟨-, ⟨c, hc, -⟩, -⟩ := h
  exact List.ne_nil_of_mem hc

theorem ofNumber_eq_ok_iff {literal : Text} {token : Token}
    (h : ∀ c ∈ literal, isNumberPart c = true) :
    ofNumber literal = .ok token ↔
      IsLiteral literal ∧ token = .number ((literalDecimal literal).nearest false) := by
  unfold ofNumber
  cases hd : Decimal.ofText? literal with
  | none =>
    refine iff_of_false nofun fun hl => ?_
    rw [(ofText?_eq_some_iff h).2 ⟨hl.1, rfl⟩] at hd
    cases hd
  | some d =>
    obtain ⟨hl, rfl⟩ := (ofText?_eq_some_iff h).1 hd
    simp [hl, eq_comm]

/-! ## One lexeme -/

theorem ofName_eq_ok_iff {name : Text} {token : Token} :
    ofName name = .ok token ↔ (∃ f, (name, f) ∈ functionNames ∧ token = .function f) ∨
      ∃ c, (name, c) ∈ constantNames ∧ token = .constant c := by
  constructor
  · intro h
    simp only [ofName] at h
    split at h
    · next f hf => exact .inl ⟨f, function_ofName?_iff.1 hf, (Except.ok.inj h).symm⟩
    · split at h
      · next c hc => exact .inr ⟨c, constant_ofName?_iff.1 hc, (Except.ok.inj h).symm⟩
      · cases h
  · rintro (⟨f, hf, rfl⟩ | ⟨c, hc, rfl⟩)
    · rw [ofName, function_ofName?_iff.2 hf]
    · have hall : ∀ pair ∈ constantNames, Function.ofName? pair.1 = none := by decide
      rw [ofName, hall _ hc, constant_ofName?_iff.2 hc]

theorem ofSymbol_eq_ok_iff {c : Char} {token : Token} :
    ofSymbol c = .ok token ↔ (∃ o, (c, o) ∈ operatorCharacters ∧ token = .operator o) ∨
      (c = 'π' ∧ token = .constant .pi) ∨ (c = '(' ∧ token = .opening) ∨
      (c = ')' ∧ token = .closing) := by
  constructor
  · intro h
    simp only [ofSymbol] at h
    split at h
    · next o ho => exact .inl ⟨o, operator_ofChar?_iff.1 ho, (Except.ok.inj h).symm⟩
    · split at h
      · next hc => exact .inr (.inl ⟨hc, (Except.ok.inj h).symm⟩)
      · split at h
        · next hc => exact .inr (.inr (.inl ⟨hc, (Except.ok.inj h).symm⟩))
        · split at h
          · next hc => exact .inr (.inr (.inr ⟨hc, (Except.ok.inj h).symm⟩))
          · cases h
  · rintro (⟨o, ho, rfl⟩ | ⟨rfl, rfl⟩ | ⟨rfl, rfl⟩ | ⟨rfl, rfl⟩)
    · simp [ofSymbol, operator_ofChar?_iff.2 ho]
    · rfl
    · rfl
    · rfl

/-- The characters of operators are symbols. -/
theorem symbol_of_mem {c : Char} {o : Operator} (h : (c, o) ∈ operatorCharacters) :
    isNumberPart c = false ∧ c.isAlpha = false ∧ isBlank c = false := by
  have hall : ∀ pair ∈ operatorCharacters,
      isNumberPart pair.1 = false ∧ pair.1.isAlpha = false ∧ isBlank pair.1 = false := by decide
  exact hall (c, o) h

theorem isAlpha_of_mem_name (f : Function) : ∀ c ∈ f.name, c.isAlpha = true :=
  forall_mem_of_all (by cases f <;> decide)

theorem lexeme_number {c : Char} (h : isNumberPart c = true) (rest : Text) :
    lexeme c rest =
      (ofNumber (c :: rest.takeWhile isNumberPart), rest.dropWhile isNumberPart) := by
  rw [lexeme, if_pos h]

theorem lexeme_name {c : Char} (h : c.isAlpha = true) (rest : Text) :
    lexeme c rest = (ofName (c :: rest.takeWhile Char.isAlpha), rest.dropWhile Char.isAlpha) := by
  have : isNumberPart c = false := Bool.eq_false_iff.2 fun hn =>
    absurd h (Bool.eq_false_iff.1 (not_isAlpha_of_isNumberPart hn))
  rw [lexeme, if_neg (Bool.eq_false_iff.1 this), if_pos h]

theorem lexeme_symbol {c : Char} (h : isNumberPart c = false) (h' : c.isAlpha = false)
    (rest : Text) : lexeme c rest = (ofSymbol c, rest) := by
  rw [lexeme, if_neg (Bool.eq_false_iff.1 h), if_neg (Bool.eq_false_iff.1 h')]

/-- Nothing runs together with a lexeme of a class of characters when the next character is not of
that class. -/
theorem ends_of_class {p : Char → Bool} {lexeme rest : Text} (hp : ∀ c ∈ lexeme, p c = true)
    (hrest : ∀ d ∈ rest.head?, p d = false)
    (hclass : ∀ c d, p c = true → RunTogether c d → p d = true) : Ends lexeme rest := by
  intro c hc d hd hrun
  have := hclass c d (hp c (List.mem_of_getLast? hc)) hrun
  rw [hrest d hd] at this
  cases this

theorem runTogether_of_isNumberPart {c d : Char} (hc : isNumberPart c = true)
    (hd : isNumberPart d = true) : RunTogether c d :=
  .inl ⟨isNumberPart_eq_true_iff.1 hc, isNumberPart_eq_true_iff.1 hd⟩

theorem numberPart_of_runTogether {c d : Char} (h : isNumberPart c = true)
    (hrun : RunTogether c d) : isNumberPart d = true := by
  rcases hrun with ⟨-, hd⟩ | ⟨hc, -⟩
  · exact isNumberPart_eq_true_iff.2 hd
  · rw [not_isAlpha_of_isNumberPart h] at hc
    cases hc

theorem alpha_of_runTogether {c d : Char} (h : c.isAlpha = true) (hrun : RunTogether c d) :
    d.isAlpha = true := by
  rcases hrun with ⟨hc, -⟩ | ⟨-, hd⟩
  · rw [not_isAlpha_of_isNumberPart (isNumberPart_eq_true_iff.2 hc)] at h
    cases h
  · exact hd

theorem ends_nil (lexeme : Text) : Ends lexeme [] := nofun

theorem ends_symbol {c : Char} (h : isNumberPart c = false) (h' : c.isAlpha = false)
    (rest : Text) : Ends [c] rest := by
  intro a ha d _ hrun
  rw [List.getLast?_singleton, Option.mem_some_iff] at ha
  subst ha
  rcases hrun with ⟨hc, -⟩ | ⟨hc, -⟩
  · rw [isNumberPart_eq_true_iff.2 hc] at h
    cases h
  · rw [h'] at hc
    cases hc

/-- Nothing runs together with a symbol that follows it. -/
theorem ends_before_symbol {d : Char} (h : isNumberPart d = false) (h' : d.isAlpha = false)
    (lexeme rest : Text) : Ends lexeme (d :: rest) := by
  intro c _ a ha hrun
  obtain rfl := Option.mem_some_iff.1 ha
  rcases hrun with ⟨-, hd⟩ | ⟨-, hd⟩
  · rw [isNumberPart_eq_true_iff.2 hd] at h
    cases h
  · rw [h'] at hd
    cases hd

theorem spells_of_name {name : Text} {token : Token} (h : ofName name = .ok token) :
    Spells name token := by
  rcases ofName_eq_ok_iff.1 h with ⟨f, hf, rfl⟩ | ⟨c, hc, rfl⟩
  · exact .function hf
  · exact .constant hc

theorem spells_of_symbol {c : Char} {token : Token} (h : ofSymbol c = .ok token) :
    Spells [c] token := by
  rcases ofSymbol_eq_ok_iff.1 h with ⟨o, ho, rfl⟩ | ⟨rfl, rfl⟩ | ⟨rfl, rfl⟩ | ⟨rfl, rfl⟩
  · exact .operator ho
  · exact .symbol .pi
  · exact .opening
  · exact .closing

/-- A lexeme that the scanner finds spells its token and could not be longer. -/
theorem spells_of_lexeme {c : Char} {rest remaining : Text} {token : Token}
    (h : lexeme c rest = (.ok token, remaining)) :
    ∃ found, c :: rest = found ++ remaining ∧ Spells found token ∧ Ends found remaining := by
  by_cases hn : isNumberPart c = true
  · rw [lexeme_number hn, Prod.mk.injEq] at h
    obtain ⟨ht, rfl⟩ := h
    have hall : ∀ d ∈ c :: rest.takeWhile isNumberPart, isNumberPart d = true :=
      List.forall_mem_cons.2 ⟨hn, fun d hd => List.mem_takeWhile_imp hd⟩
    obtain ⟨hl, rfl⟩ := (ofNumber_eq_ok_iff hall).1 ht
    exact ⟨_, by rw [List.cons_append, List.takeWhile_append_dropWhile], .number hl,
      ends_of_class hall head?_dropWhile fun _ _ => numberPart_of_runTogether⟩
  rw [Bool.not_eq_true] at hn
  by_cases ha : c.isAlpha = true
  · rw [lexeme_name ha, Prod.mk.injEq] at h
    obtain ⟨ht, rfl⟩ := h
    have hall : ∀ d ∈ c :: rest.takeWhile Char.isAlpha, d.isAlpha = true :=
      List.forall_mem_cons.2 ⟨ha, fun d hd => List.mem_takeWhile_imp hd⟩
    exact ⟨_, by rw [List.cons_append, List.takeWhile_append_dropWhile], spells_of_name ht,
      ends_of_class hall head?_dropWhile fun _ _ => alpha_of_runTogether⟩
  · rw [Bool.not_eq_true] at ha
    rw [lexeme_symbol hn ha, Prod.mk.injEq] at h
    obtain ⟨ht, rfl⟩ := h
    exact ⟨[c], rfl, spells_of_symbol ht, ends_symbol hn ha _⟩

/-- The boundary that ends a lexeme of a class of characters. -/
theorem head?_of_ends {p : Char → Bool} {lexeme rest : Text} (hne : lexeme ≠ [])
    (hp : ∀ c ∈ lexeme, p c = true) (h : Ends lexeme rest)
    (hclass : ∀ c d, p c = true → p d = true → RunTogether c d) :
    ∀ d ∈ rest.head?, p d = false := by
  intro d hd
  refine Bool.eq_false_iff.2 fun hpd => ?_
  have hlast := List.getLast?_eq_some_getLast hne
  exact h _ hlast d hd (hclass _ _ (hp _ (List.getLast_mem hne)) hpd)

theorem lexeme_of_number {literal rest : Text} (h : IsLiteral literal) (hends : Ends literal rest) :
    ∃ c l, literal = c :: l ∧ isBlank c = false ∧ lexeme c (l ++ rest) =
      (.ok (.number ((literalDecimal literal).nearest false)), rest) := by
  have hrest := head?_of_ends h.ne_nil h.isNumberPart hends fun _ _ => runTogether_of_isNumberPart
  obtain ⟨c, l, rfl⟩ := List.exists_cons_of_ne_nil h.ne_nil
  obtain ⟨hc, hl⟩ := List.forall_mem_cons.1 h.isNumberPart
  obtain ⟨ht, hd⟩ := takeWhile_boundary hl hrest
  refine ⟨c, l, rfl, isBlank_eq_false_of_isNumberPart hc, ?_⟩
  rw [lexeme_number hc, ht, hd, (ofNumber_eq_ok_iff h.isNumberPart).2 ⟨h, rfl⟩]

theorem lexeme_of_name {name rest : Text} {token : Token} (hne : name ≠ [])
    (ha : ∀ c ∈ name, c.isAlpha = true) (ht : ofName name = .ok token) (hends : Ends name rest) :
    ∃ c l, name = c :: l ∧ isBlank c = false ∧ lexeme c (l ++ rest) = (.ok token, rest) := by
  have hrest := head?_of_ends hne ha hends fun _ _ hc hd => .inr ⟨hc, hd⟩
  obtain ⟨c, l, rfl⟩ := List.exists_cons_of_ne_nil hne
  obtain ⟨hc, hl⟩ := List.forall_mem_cons.1 ha
  obtain ⟨htake, hd⟩ := takeWhile_boundary hl hrest
  refine ⟨c, l, rfl, isBlank_eq_false_of_isAlpha hc, ?_⟩
  rw [lexeme_name hc, htake, hd, ht]

/-- A lexeme that what follows does not prolong is found. -/
theorem lexeme_of_spells {found rest : Text} {token : Token} (h : Spells found token)
    (hends : Ends found rest) :
    ∃ c l, found = c :: l ∧ isBlank c = false ∧ lexeme c (l ++ rest) = (.ok token, rest) := by
  cases h with
  | number hl => exact lexeme_of_number hl hends
  | @function name f hf =>
    obtain rfl := mem_functionNames.1 hf
    exact lexeme_of_name (by cases f <;> decide) (isAlpha_of_mem_name f)
      (ofName_eq_ok_iff.2 (.inl ⟨f, hf, rfl⟩)) hends
  | @constant _ k hk =>
    have ht : ofName found = .ok (.constant k) := ofName_eq_ok_iff.2 (.inr ⟨k, hk, rfl⟩)
    rcases mem_constantNames.1 hk with rfl | ⟨rfl, rfl⟩
    · cases k with
      | pi => exact ⟨'π', [], rfl, by decide, by rw [lexeme_symbol (by decide) (by decide)]; rfl⟩
      | e => exact lexeme_of_name (by decide) (forall_mem_of_all (by decide)) ht hends
    · exact lexeme_of_name (by decide) (forall_mem_of_all (by decide)) ht hends
  | @operator c o ho =>
    obtain ⟨hn, ha, hb⟩ := symbol_of_mem ho
    exact ⟨c, [], rfl, hb, by
      rw [lexeme_symbol hn ha, ofSymbol_eq_ok_iff.2 (.inl ⟨o, ho, rfl⟩), List.nil_append]⟩
  | opening => exact ⟨'(', [], rfl, by decide, by rw [lexeme_symbol (by decide) (by decide)]; rfl⟩
  | closing => exact ⟨')', [], rfl, by decide, by rw [lexeme_symbol (by decide) (by decide)]; rfl⟩

theorem Spells.ne_nil {found : Text} {token : Token} (h : Spells found token) : found ≠ [] := by
  obtain ⟨c, l, rfl, -⟩ := lexeme_of_spells h (ends_nil found)
  exact List.cons_ne_nil c l

/-! ## Texts -/

/-- A text without blanks does not begin with one. -/
theorem not_mem_whiteSpace {c : Char} {text : Text} (h : ∀ d ∈ c :: text, isBlank d = false) :
    c ∉ whiteSpace := by
  rw [← isBlank_iff_mem, h c List.mem_cons_self]
  exact Bool.false_ne_true

/-- A lexeme alone is its token. -/
theorem Spells.reads {found : Text} {token : Token} (h : Spells found token) :
    Reads found [token] := by
  have hreads := Reads.lexeme h (ends_nil found) .nil
  rwa [List.append_nil] at hreads

theorem reads_of_scan {text : Text} (h : (scan text).fault = none) :
    Reads text (scan text).tokens := by
  fun_induction scan text with
  | case1 => exact .nil
  | case2 c rest hb ih => exact .blank (isBlank_iff_mem.1 hb) (ih h)
  | case3 c rest hb fault hf => cases h
  | case4 c rest hb token ht scanned ih =>
    have hlexeme : lexeme c rest = (.ok token, (lexeme c rest).2) := Prod.ext ht rfl
    obtain ⟨found, he, hs, hends⟩ := spells_of_lexeme hlexeme
    rw [he]
    exact .lexeme hs hends (ih h)

/-- The text after a lexeme may end earlier. -/
theorem Ends.shorten {found first rest : Text} (h : Ends found rest) (hbegin : first <+: rest) :
    Ends found first := by
  obtain ⟨later, rfl⟩ := hbegin
  cases first with
  | nil => exact ends_nil found
  | cons d first => exact h

/-- The first tokens of a text, malformed or not, are those of its beginning. -/
theorem exists_reads_of_prefix {text : Text} :
    ∀ ts, ts <+: (scan text).tokens → ∃ first, first <+: text ∧ Reads first ts := by
  fun_induction scan text with
  | case1 | case3 =>
    intro ts h
    rw [List.prefix_nil.1 h]
    exact ⟨[], List.nil_prefix, .nil⟩
  | case2 c rest hb ih =>
    intro ts h
    obtain ⟨first, hfirst, hreads⟩ := ih ts h
    exact ⟨c :: first, List.cons_prefix_cons.2 ⟨rfl, hfirst⟩, .blank (isBlank_iff_mem.1 hb) hreads⟩
  | case4 c rest hb token ht scanned ih =>
    intro ts h
    cases ts with
    | nil => exact ⟨[], List.nil_prefix, .nil⟩
    | cons t ts =>
      obtain ⟨rfl, hts⟩ := List.cons_prefix_cons.1 h
      obtain ⟨first, hfirst, hreads⟩ := ih ts hts
      obtain ⟨found, he, hs, hends⟩ := spells_of_lexeme (Prod.ext ht rfl)
      refine ⟨found ++ first, ?_, .lexeme hs (hends.shorten hfirst) hreads⟩
      rw [he]
      exact (List.prefix_append_right_inj found).2 hfirst

theorem scan_of_reads {text : Text} {tokens : List Token} (h : Reads text tokens) :
    scan text = ⟨tokens, none⟩ := by
  induction h with
  | nil => exact scan_nil
  | blank hb _ ih => rw [scan_blank (isBlank_iff_mem.2 hb), ih]
  | lexeme hs hends _ ih =>
    obtain ⟨c, l, rfl, hb, hl⟩ := lexeme_of_spells hs hends
    rw [List.cons_append, scan_cons hb hl, ih]

/-- The scanner reads a text without a fault as the tokens it spells by longest lexemes. -/
theorem scan_eq_iff_reads {text : Text} {tokens : List Token} :
    scan text = ⟨tokens, none⟩ ↔ Reads text tokens := by
  refine ⟨fun h => ?_, scan_of_reads⟩
  have := @reads_of_scan text (by rw [h])
  rwa [h] at this

/-! ## Texts side by side -/

theorem Ends.suffix (first : Text) {second rest : Text} (h : Ends (first ++ second) rest) :
    Ends second rest := by
  intro c hc
  refine h c ?_
  rw [List.getLast?_append, Option.mem_def.1 hc]
  rfl

/-- A lexeme that ends before a boundary is found whatever lies behind it. -/
theorem lexeme_append {c : Char} {rest later : Text} (h : Ends (c :: rest) later) :
    lexeme c (rest ++ later) = ((lexeme c rest).1, (lexeme c rest).2 ++ later) := by
  have hclass : ∀ p : Char → Bool, p c = true →
      (∀ a b, p a = true → p b = true → RunTogether a b) →
      (rest ++ later).takeWhile p = rest.takeWhile p ∧
        (rest ++ later).dropWhile p = rest.dropWhile p ++ later := fun p hc hrun =>
    takeWhile_append_boundary fun hrest =>
      head?_of_ends (List.cons_ne_nil _ _) (List.forall_mem_cons.2 ⟨hc, hrest⟩) h hrun
  by_cases hn : isNumberPart c = true
  · obtain ⟨ht, hd⟩ := hclass isNumberPart hn fun _ _ => runTogether_of_isNumberPart
    rw [lexeme_number hn, lexeme_number hn, ht, hd]
  by_cases ha : c.isAlpha = true
  · obtain ⟨ht, hd⟩ := hclass Char.isAlpha ha fun _ _ ha hb => .inr ⟨ha, hb⟩
    rw [lexeme_name ha, lexeme_name ha, ht, hd]
  · rw [Bool.not_eq_true] at hn ha
    rw [lexeme_symbol hn ha, lexeme_symbol hn ha]

/-- Two scans one after the other: a fault of the first hides the second. -/
def Scanned.append (first second : Scanned) : Scanned :=
  match first.fault with
  | some fault => ⟨first.tokens, some fault⟩
  | none => ⟨first.tokens ++ second.tokens, second.fault⟩

/-- Texts that do not run together are scanned one after the other, malformed ones too. -/
theorem scan_append {text later : Text} (h : Ends text later) :
    scan (text ++ later) = (scan text).append (scan later) := by
  fun_induction scan text with
  | case1 => rfl
  | case2 c rest hb ih => rw [List.cons_append, scan_blank hb, ih (h.suffix [c])]
  | case3 c rest hb fault hf =>
    rw [List.cons_append, scan_fault (by simpa using hb) (by rw [lexeme_append h]; exact hf)]
    rfl
  | case4 c rest hb token ht scanned ih =>
    have hl : lexeme c (rest ++ later) = (.ok token, (lexeme c rest).2 ++ later) := by
      rw [lexeme_append h, ht]
    obtain ⟨before, hbefore⟩ := lexeme_suffix c rest
    have hends : Ends (lexeme c rest).2 later := by
      refine Ends.suffix (c :: before) ?_
      rwa [List.cons_append, hbefore]
    rw [List.cons_append, scan_cons (by simpa using hb) hl, ih hends]
    unfold Scanned.append
    cases scanned.fault <;> rfl

/-- Texts may stand side by side if nothing runs together where they meet. -/
theorem Reads.append {text rest : Text} {ts us : List Token} (h : Reads text ts)
    (hrest : Reads rest us) (hends : Ends text rest) : Reads (text ++ rest) (ts ++ us) := by
  rw [← scan_eq_iff_reads, scan_append hends, scan_of_reads h, scan_of_reads hrest]
  rfl

/-- An operator may stand before anything. -/
theorem Reads.operator {c : Char} {o : Operator} {text : Text} {tokens : List Token}
    (ho : (c, o) ∈ operatorCharacters) (h : Reads text tokens) :
    Reads (c :: text) (.operator o :: tokens) := by
  obtain ⟨hn, ha, -⟩ := symbol_of_mem ho
  exact .lexeme (.operator ho) (ends_symbol hn ha text) h

/-- An operator between two texts. -/
theorem Reads.binary {c : Char} {o : Operator} {text later : Text} {ts us : List Token}
    (h : Reads text ts) (ho : (c, o) ∈ operatorCharacters) (hlater : Reads later us) :
    Reads (text ++ c :: later) (ts ++ .operator o :: us) := by
  obtain ⟨hn, ha, -⟩ := symbol_of_mem ho
  exact h.append (.operator ho hlater) (ends_before_symbol hn ha text later)

/-- An opening parenthesis may stand before anything. -/
theorem Reads.opening {text : Text} {tokens : List Token} (h : Reads text tokens) :
    Reads ('(' :: text) (.opening :: tokens) :=
  .lexeme .opening (ends_symbol (by decide) (by decide) text) h

/-- A closing parenthesis may follow anything. -/
theorem Reads.closing {text : Text} {tokens : List Token} (h : Reads text tokens) :
    Reads (text ++ [')']) (tokens ++ [.closing]) :=
  h.append Spells.closing.reads (ends_before_symbol (by decide) (by decide) text [])

/-- A text without blanks ends in a lexeme of its last token. -/
theorem Reads.last_lexeme {text : Text} {tokens : List Token} (h : Reads text tokens)
    (hblank : ∀ c ∈ text, isBlank c = false) :
    ∀ t ∈ tokens.getLast?, ∃ before found, text = before ++ found ∧ Spells found t := by
  induction h with
  | nil => nofun
  | blank hb _ _ => exact absurd hb (not_mem_whiteSpace hblank)
  | @lexeme found rest token tokens hs _ hr ih =>
    have hrest : ∀ c ∈ rest, isBlank c = false := fun c hc => hblank c (by simp [hc])
    intro t ht
    cases hr with
    | nil =>
      obtain rfl := Option.mem_some_iff.1 ht
      exact ⟨[], found, by simp, hs⟩
    | blank hb _ => exact absurd hb (not_mem_whiteSpace hrest)
    | @lexeme found' rest' token' tokens' hs' he' hr' =>
      rw [List.getLast?_cons_cons] at ht
      obtain ⟨before, last, he, hlast⟩ := ih hrest t ht
      exact ⟨found ++ before, last, by rw [he, List.append_assoc], hlast⟩

end DeskCalculator.Token
