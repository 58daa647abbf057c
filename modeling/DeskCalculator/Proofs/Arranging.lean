import DeskCalculator.Proofs.Binding
import DeskCalculator.Proofs.Scanning

/-!
# The arranger follows the grammar

Reading the tokens of a phrase, the arranger puts its postfix tokens out, up to those of the last
tokens that wait; and whatever it accepts is a phrase.

* `Arranges`: what reading a phrase of a level does to a state, and `arranges_of_derives`: every
  derivation does it, by induction on the derivation;
* `Pending`, `Explains`: the phrases behind the output and the waiting tokens of a state, and
  `explains_step`: every step keeps such an explanation;
* `arrange_eq_ok_iff`: so exactly the sums are accepted, each as its postfix tokens.
-/

namespace DeskCalculator

namespace Arranger

theorem release_cons (t : Token) (released output : List Token) :
    release (t :: released) output = release released (t :: output) := by
  simp [release]

theorem release_append (first second output : List Token) :
    release (first ++ second) output = release second (release first output) := by
  simp [release]

theorem foldlM_step_append {ts us : List Token} {a b : Arranger} (h : ts.foldlM step a = .ok b) :
    (ts ++ us).foldlM step a = us.foldlM step b := by
  rw [List.foldlM_append, h]
  rfl

theorem foldlM_step_cons {t : Token} {ts : List Token} {a b : Arranger} (h : step a t = .ok b) :
    (t :: ts).foldlM step a = ts.foldlM step b := by
  rw [List.foldlM_cons, h]
  rfl

/-! ## Every phrase is arranged -/

/-- Reading the tokens where an operand is due, above waiting tokens that leave a phrase of the
level alone, puts the postfix tokens of the phrase out, except for waiting tokens that form phrases
of the level. -/
def Arranges (level : Level) (ts : List Token) (p : Phrase) : Prop :=
  ∀ output waiting, (Token.demand waiting).strength ≤ level.strength →
    (∀ f, waiting.head? ≠ some (.function f)) →
    ∃ pending out, ts.foldlM step ⟨output, waiting, .operand⟩ =
        .ok ⟨out, pending ++ waiting, .operator⟩ ∧
      (∀ t ∈ pending, Token.Forms level t) ∧ release pending out = p.listing.reverse ++ output

theorem Arranges.weaken {strong weak : Level} {ts : List Token} {p : Phrase}
    (h : Arranges strong ts p) (hs : weak.strength ≤ strong.strength) : Arranges weak ts p := by
  intro output waiting hd hf
  obtain ⟨pending, out, hrun, hforms, hout⟩ := h output waiting (Nat.le_trans hd hs) hf
  exact ⟨pending, out, hrun, fun t ht => (hforms t ht).weaken hs, hout⟩

/-- After its left operand, an operator waits alone above the tokens that waited before. -/
theorem step_operator {o : Operator} {pending out waiting output : List Token}
    (hforms : ∀ t ∈ pending, Token.Forms o.leftLevel t)
    (hd : (Token.demand waiting).strength ≤ o.level.strength)
    (hout : release pending out = output) :
    step ⟨out, pending ++ waiting, .operator⟩ (.operator o) =
      .ok ⟨output, .operator o :: waiting, .operand⟩ := by
  obtain ⟨ht, hr⟩ := takeWhile_boundary (p := Token.isAppliedBefore o) (l := pending)
    (fun t ht => Token.isAppliedBefore_iff.2 (hforms t ht)) (Token.demand_le_level_iff.1 hd)
  simp only [step, operator, reduceCtorEq, ↓reduceIte, ht, hr, hout]

theorem Arranges.binary {o : Operator} {ls rs : List Token} {l r : Phrase}
    (hl : Arranges o.leftLevel ls l) (hr : Arranges o.rightLevel rs r) :
    Arranges o.level (ls ++ .operator o :: rs) (.binary o l r) := by
  intro output waiting hd hf
  have hlevel : o.level.strength ≤ o.leftLevel.strength := by cases o <;> decide
  have hright : o.level.strength ≤ o.rightLevel.strength := by cases o <;> decide
  obtain ⟨pl, outl, hrunl, hformsl, houtl⟩ := hl output waiting (Nat.le_trans hd hlevel) hf
  have hstep := step_operator hformsl hd houtl
  obtain ⟨pr, outr, hrunr, hformsr, houtr⟩ :=
    hr (l.listing.reverse ++ output) (.operator o :: waiting) (Nat.le_refl _) (by simp)
  refine ⟨pr ++ [.operator o], outr, ?_, fun t ht => ?_, ?_⟩
  · rw [foldlM_step_append hrunl, foldlM_step_cons hstep, hrunr, List.append_assoc]
    rfl
  · rcases List.mem_append.1 ht with ht | ht
    · exact (hformsr t ht).weaken hright
    · rw [List.mem_singleton.1 ht]
      exact Nat.le_refl _
  · rw [release_append, houtr]
    simp [release, Phrase.listing]

theorem Arranges.signed {o : Operator} {s : Sign} {ts : List Token} {p : Phrase}
    (ho : o.sign? = some s) (h : Arranges .unary ts p) :
    Arranges .unary (.operator o :: ts) (.signed s p) := by
  intro output waiting hd hf
  have hstep : step ⟨output, waiting, .operand⟩ (.operator o) =
      .ok ⟨output, .sign s :: waiting, .operand⟩ := by
    simp only [step, operator, ↓reduceIte, ho]
  obtain ⟨pending, out, hrun, hforms, hout⟩ :=
    h output (.sign s :: waiting) (Nat.le_refl _) (by simp)
  refine ⟨pending ++ [.sign s], out, ?_, fun t ht => ?_, ?_⟩
  · rw [foldlM_step_cons hstep, hrun, List.append_assoc]
    rfl
  · rcases List.mem_append.1 ht with ht | ht
    · exact hforms t ht
    · rw [List.mem_singleton.1 ht]
      exact Nat.le_refl _
  · rw [release_append, hout]
    simp [release, Phrase.listing]

/-- The end of a group releases what waits since its beginning. -/
theorem step_closing {pending out waiting output : List Token}
    (hforms : ∀ t ∈ pending, Token.Forms .sum t) (hout : release pending out = output)
    (hf : ∀ f, waiting.head? ≠ some (.function f)) :
    step ⟨out, pending ++ .opening :: waiting, .operator⟩ .closing =
      .ok ⟨output, waiting, .operator⟩ := by
  obtain ⟨ht, hr⟩ := takeWhile_boundary (p := Token.isApplied) (l := pending)
    (r := .opening :: waiting) (fun t ht => Token.isApplied_iff.2 (hforms t ht))
    (by rintro _ ⟨⟩; rfl)
  simp only [step, closeGroup, reduceCtorEq, ↓reduceIte, ht, hr, hout]
  cases waiting with
  | nil => rfl
  | cons t rest =>
    cases t with
    | function f => exact absurd rfl (hf f)
    | _ => rfl

/-- The end of the argument of a function also releases the function. -/
theorem step_closing_call {f : Function} {pending out waiting output : List Token}
    (hforms : ∀ t ∈ pending, Token.Forms .sum t) (hout : release pending out = output) :
    step ⟨out, pending ++ .opening :: .function f :: waiting, .operator⟩ .closing =
      .ok ⟨.function f :: output, waiting, .operator⟩ := by
  obtain ⟨ht, hr⟩ := takeWhile_boundary (p := Token.isApplied) (l := pending)
    (r := .opening :: .function f :: waiting)
    (fun t ht => Token.isApplied_iff.2 (hforms t ht)) (by rintro _ ⟨⟩; rfl)
  simp only [step, closeGroup, reduceCtorEq, ↓reduceIte, ht, hr, hout]

theorem Arranges.group {ts : List Token} {p : Phrase} (h : Arranges .sum ts p) :
    Arranges .atom (.opening :: ts ++ [.closing]) p := by
  intro output waiting _ hf
  obtain ⟨pending, out, hrun, hforms, hout⟩ :=
    h output (.opening :: waiting) (Nat.le_refl _) (by simp)
  refine ⟨[], p.listing.reverse ++ output, ?_, by simp, rfl⟩
  rw [List.cons_append, foldlM_step_cons rfl]
  show (ts ++ [Token.closing]).foldlM step ⟨output, .opening :: waiting, .operand⟩ = _
  rw [foldlM_step_append hrun, foldlM_step_cons (step_closing hforms hout hf)]
  rfl

theorem Arranges.call {f : Function} {ts : List Token} {p : Phrase} (h : Arranges .sum ts p) :
    Arranges .atom (.function f :: .opening :: ts ++ [.closing]) (.call f p) := by
  intro output waiting _ _
  obtain ⟨pending, out, hrun, hforms, hout⟩ :=
    h output (.opening :: .function f :: waiting) (Nat.le_refl _) (by simp)
  refine ⟨[], .function f :: (p.listing.reverse ++ output), ?_, by simp, ?_⟩
  · rw [List.cons_append, List.cons_append, foldlM_step_cons rfl, foldlM_step_cons rfl]
    show (ts ++ [Token.closing]).foldlM step
      ⟨output, .opening :: .function f :: waiting, .operand⟩ = _
    rw [foldlM_step_append hrun, foldlM_step_cons (step_closing_call hforms hout)]
    rfl
  · simp [release, Phrase.listing]

/-- What the grammar derives is arranged, by induction on the derivation. -/
theorem arranges_of_derives {level : Level} {ts : List Token} {p : Phrase}
    (h : Derives level ts p) : Arranges level ts p := by
  induction h with
  | sum ho _ _ ihl ihr =>
    rcases ho with rfl | rfl
    · exact .binary (o := .add) ihl ihr
    · exact .binary (o := .subtract) ihl ihr
  | product ho _ _ ihl ihr =>
    rcases ho with rfl | rfl | rfl
    · exact .binary (o := .multiply) ihl ihr
    · exact .binary (o := .divide) ihl ihr
    · exact .binary (o := .remainder) ihl ihr
  | power _ _ ihl ihr => exact .binary (o := .power) ihl ihr
  | signed ho _ ih => exact .signed (Operator.sign?_eq_some_iff.2 ho) ih
  | number value => exact fun output waiting _ _ => ⟨[], .number value :: output, rfl, by simp, rfl⟩
  | constant c => exact fun output waiting _ _ => ⟨[], .constant c :: output, rfl, by simp, rfl⟩
  | call _ ih => exact .call ih
  | group _ ih => exact .group ih
  | sumOfProduct _ ih => exact ih.weaken (by decide)
  | productOfPower _ ih => exact ih.weaken (by decide)
  | powerOfUnary _ ih => exact ih.weaken (by decide)
  | unaryOfAtom _ ih => exact ih.weaken (by decide)

/-! ## Whatever is arranged is a phrase -/

/-- The tokens read, the tokens that wait and the output of a state in which an operand is due.
Every token that waits was read there, after the phrase that is the left operand of an operator. -/
inductive Pending : List Token → List Token → List Token → Prop where
  | start : Pending [] [] []
  | opening {read waiting output} : Pending read waiting output →
      Pending (read ++ [.opening]) (.opening :: waiting) output
  | call {read waiting output} (f : Function) : Pending read waiting output →
      Pending (read ++ [.function f, .opening]) (.opening :: .function f :: waiting) output
  | sign {read waiting output o s} : Pending read waiting output → Operator.sign? o = some s →
      Pending (read ++ [.operator o]) (.sign s :: waiting) output
  | operator {read waiting output o ls l} : Pending read waiting output →
      Derives o.leftLevel ls l → (Token.demand waiting).strength ≤ o.level.strength →
      Pending (read ++ ls ++ [.operator o]) (.operator o :: waiting) (l.listing.reverse ++ output)

/-- The tokens read explain the state. -/
inductive Explains : List Token → Arranger → Prop where
  | operand {read waiting output} : Pending read waiting output →
      Explains read ⟨output, waiting, .operand⟩
  | operator {read waiting output xs p} : Pending read waiting output → Derives .atom xs p →
      Explains (read ++ xs) ⟨p.listing.reverse ++ output, waiting, .operator⟩
  | argument {read waiting output} (f : Function) : Pending read waiting output →
      Explains (read ++ [.function f]) ⟨output, waiting, .argument f⟩

/-- A function waits under its parenthesis only. -/
theorem Pending.head?_ne_function {read waiting output : List Token}
    (h : Pending read waiting output) (f : Function) : waiting.head? ≠ some (.function f) := by
  cases h <;> simp

/-- The tokens end in a phrase of a level, and those before it explain the waiting tokens. -/
def Above (level : Level) (tokens waiting out : List Token) : Prop :=
  ∃ read output xs p, tokens = read ++ xs ∧ out = p.listing.reverse ++ output ∧
    Pending read waiting output ∧ Derives level xs p

/-- Releasing the tokens that form phrases of a level leaves a phrase of that level. -/
theorem Pending.release {level : Level} (hlevel : level.strength ≤ Level.unary.strength)
    {q : Token → Bool} (hq : ∀ t, q t = true ↔ Token.Forms level t)
    {read waiting output xs : List Token} {p : Phrase} (h : Pending read waiting output)
    (hx : Derives level xs p) (hd : Derives (Token.demand waiting) xs p) :
    Above level (read ++ xs) (waiting.dropWhile q)
      (Arranger.release (waiting.takeWhile q) (p.listing.reverse ++ output)) := by
  have stop : ∀ t rest, ¬ Token.Forms level t →
      (t :: rest).takeWhile q = [] ∧ (t :: rest).dropWhile q = t :: rest := fun t rest ht => by
    simp [mt (hq t).1 ht]
  have go : ∀ t rest, Token.Forms level t →
      (t :: rest).takeWhile q = t :: rest.takeWhile q ∧
        (t :: rest).dropWhile q = rest.dropWhile q :=
    fun t rest ht => by simp [(hq t).2 ht]
  induction h generalizing xs p with
  | start => exact ⟨[], [], xs, p, rfl, rfl, .start, hx⟩
  | opening h =>
    rw [(stop _ _ id).1, (stop _ _ id).2]
    exact ⟨_, _, xs, p, rfl, rfl, h.opening, hx⟩
  | call f h =>
    rw [(stop _ _ id).1, (stop _ _ id).2]
    exact ⟨_, _, xs, p, rfl, rfl, h.call f, hx⟩
  | @sign read waiting output o s h ho ih =>
    rw [(go (.sign s) _ hlevel).1, (go (.sign s) _ hlevel).2, release_cons]
    have hsigned : Derives .unary (.operator o :: xs) (.signed s p) :=
      .signed (Operator.sign?_eq_some_iff.1 ho) hd
    have := ih (hsigned.weaken hlevel) (hsigned.weaken (Token.demand_le_unary _))
    simpa [Phrase.listing] using this
  | @operator read waiting output o ls l h hl hdemand ih =>
    by_cases hf : Token.Forms level (.operator o)
    · rw [(go _ _ hf).1, (go _ _ hf).2, release_cons]
      have hbinary : Derives o.level (ls ++ .operator o :: xs) (.binary o l p) := .binary hl hd
      have := ih (hbinary.weaken hf) (hbinary.weaken hdemand)
      simpa [Phrase.listing] using this
    · rw [(stop _ _ hf).1, (stop _ _ hf).2]
      exact ⟨_, _, xs, p, rfl, rfl, h.operator hl hdemand, hx⟩

theorem Pending.above_operator {read waiting output xs : List Token} {p : Phrase}
    (h : Pending read waiting output) (hx : Derives .atom xs p) (o : Operator) :
    Above o.leftLevel (read ++ xs) (waiting.dropWhile (Token.isAppliedBefore o))
      (Arranger.release (waiting.takeWhile (Token.isAppliedBefore o))
        (p.listing.reverse ++ output)) :=
  h.release o.leftLevel_le_unary (fun _ => Token.isAppliedBefore_iff)
    (hx.weaken (Nat.le_succ_of_le o.leftLevel_le_unary))
    (hx.weaken (Token.demand_le_atom _))

theorem Pending.above_end {read waiting output xs : List Token} {p : Phrase}
    (h : Pending read waiting output) (hx : Derives .atom xs p) :
    Above .sum (read ++ xs) (waiting.dropWhile Token.isApplied)
      (Arranger.release (waiting.takeWhile Token.isApplied) (p.listing.reverse ++ output)) :=
  h.release (by decide) (fun _ => Token.isApplied_iff) (hx.weaken (by decide))
    (hx.weaken (Token.demand_le_atom _))

theorem Pending.explains_operand {read waiting output : List Token} {a : Arranger} {t : Token}
    (ht : ∀ s, t ≠ .sign s) (h : Pending read waiting output)
    (hstep : step ⟨output, waiting, .operand⟩ t = .ok a) : Explains (read ++ [t]) a := by
  cases t with
  | number value =>
    cases hstep
    exact .operator h (.number value)
  | constant c =>
    cases hstep
    exact .operator h (.constant c)
  | function f =>
    cases hstep
    exact .argument f h
  | operator o =>
    simp only [step, Arranger.operator, ↓reduceIte] at hstep
    split at hstep
    · next s ho =>
      cases hstep
      exact .operand (h.sign ho)
    · cases hstep
  | sign s => exact absurd rfl (ht s)
  | opening =>
    cases hstep
    exact .operand h.opening
  | closing => cases hstep

theorem Pending.explains_closing {read waiting output xs : List Token} {p : Phrase}
    {a : Arranger} (h : Pending read waiting output) (hx : Derives .atom xs p)
    (hstep : step ⟨p.listing.reverse ++ output, waiting, .operator⟩ .closing = .ok a) :
    Explains (read ++ xs ++ [.closing]) a := by
  obtain ⟨read, output', xs, p, he, hout, hp, hx⟩ := h.above_end hx
  simp only [step, closeGroup, reduceCtorEq, ↓reduceIte, hout] at hstep
  rw [he]
  generalize waiting.dropWhile Token.isApplied = rest at hp hstep
  cases hp with
  | start => cases hstep
  | sign => cases hstep
  | operator => cases hstep
  | @opening read waiting _ hp =>
    have hatom : Derives .atom (.opening :: xs ++ [.closing]) p := .group hx
    have := Explains.operator hp hatom
    simp only [List.append_assoc, List.cons_append, List.nil_append] at this ⊢
    cases waiting with
    | nil =>
      cases hstep
      exact this
    | cons t rest =>
      cases t with
      | function f => exact absurd rfl (hp.head?_ne_function f)
      | _ =>
        cases hstep
        exact this
  | @call read waiting _ f hp =>
    cases hstep
    have hatom : Derives .atom (.function f :: .opening :: xs ++ [.closing]) (.call f p) := .call hx
    have := Explains.operator hp hatom
    simpa [Phrase.listing] using this

theorem Pending.explains_operator {read waiting output xs : List Token} {p : Phrase} {a : Arranger}
    {t : Token} (ht : ∀ s, t ≠ .sign s) (h : Pending read waiting output)
    (hx : Derives .atom xs p)
    (hstep : step ⟨p.listing.reverse ++ output, waiting, .operator⟩ t = .ok a) :
    Explains (read ++ xs ++ [t]) a := by
  cases t with
  | number value => cases hstep
  | constant c => cases hstep
  | function f => cases hstep
  | operator o =>
    cases hstep
    obtain ⟨read', output', xs', p', he, hout, hp, hx'⟩ := h.above_operator hx o
    rw [he, hout]
    exact .operand (hp.operator hx' (Token.demand_le_level_iff.2 head?_dropWhile))
  | sign s => exact absurd rfl (ht s)
  | opening => cases hstep
  | closing => exact h.explains_closing hx hstep

/-- Every step keeps an explanation. -/
theorem explains_step {read : List Token} {a b : Arranger} {t : Token} (ht : ∀ s, t ≠ .sign s)
    (h : Explains read a) (hstep : step a t = .ok b) : Explains (read ++ [t]) b := by
  cases h with
  | operand hp => exact hp.explains_operand ht hstep
  | operator hp hx => exact hp.explains_operator ht hx hstep
  | @argument read waiting output f hp =>
    simp only [step] at hstep
    split at hstep
    · next he =>
      subst he
      cases hstep
      rw [List.append_assoc]
      exact .operand (hp.call f)
    · cases hstep

/-- Every run keeps an explanation. -/
theorem explains_foldlM {ts : List Token} (hts : ∀ s, .sign s ∉ ts) {read : List Token}
    {a b : Arranger} (h : Explains read a) (hrun : ts.foldlM step a = .ok b) :
    Explains (read ++ ts) b := by
  induction ts generalizing read a with
  | nil =>
    cases hrun
    rwa [List.append_nil]
  | cons t ts ih =>
    cases hstep : step a t with
    | error fault =>
      rw [List.foldlM_cons, hstep] at hrun
      cases hrun
    | ok c =>
      rw [foldlM_step_cons hstep] at hrun
      have hc := explains_step (fun s he => hts s (he ▸ List.mem_cons_self)) h hstep
      have := ih (fun s hs => hts s (List.mem_cons_of_mem _ hs)) hc hrun
      rwa [List.append_assoc] at this

theorem explains_finish {read ts : List Token} {a : Arranger} (h : Explains read a)
    (hfinish : a.finish = .ok ts) : ∃ p, Derives .sum read p ∧ ts = p.listing := by
  cases h with
  | operand => cases hfinish
  | argument => cases hfinish
  | @operator read waiting output xs p hp hx =>
    simp only [finish] at hfinish
    split at hfinish
    · next hall =>
      cases hfinish
      rw [List.all_eq_true] at hall
      obtain ⟨read', output', xs', p', he, hout, hp', hx'⟩ := hp.above_end hx
      rw [List.dropWhile_eq_nil_iff.2 hall] at hp'
      rw [List.takeWhile_eq_self_iff.2 hall] at hout
      cases hp'
      exact ⟨p', he ▸ hx', by rw [hout]; simp⟩
    · cases hfinish

end Arranger

namespace Token

theorem sign_not_mem_of_reads {text : Text} {tokens : List Token} (h : Reads text tokens)
    (s : Sign) :
    .sign s ∉ tokens := by
  induction h with
  | nil => simp
  | blank _ _ ih => exact ih
  | lexeme hs _ _ ih =>
    rw [List.mem_cons, not_or]
    exact ⟨by cases hs <;> simp, ih⟩

/-- Exactly the texts of sums are arranged, each as its postfix tokens. -/
theorem arrange_eq_ok_iff {text : Text} {ts : List Token} :
    arrange text = .ok ts ↔
      ∃ tokens p, Reads text tokens ∧ Derives .sum tokens p ∧ ts = p.listing := by
  constructor
  · intro h
    simp only [arrange, bind, Except.bind] at h
    split at h
    · cases h
    · next a hrun =>
      split at h
      · cases h
      · next hfault =>
        have hreads := reads_of_scan hfault
        have hex := Arranger.explains_foldlM (sign_not_mem_of_reads hreads) (.operand .start) hrun
        obtain ⟨p, hp, hts⟩ := Arranger.explains_finish hex h
        exact ⟨_, p, hreads, hp, hts⟩
  · rintro ⟨tokens, p, hreads, hp, rfl⟩
    obtain ⟨pending, out, hrun, hforms, hout⟩ :=
      Arranger.arranges_of_derives hp [] [] (Nat.le_refl _) (by simp)
    have hall : (pending ++ []).all isApplied = true := by
      simpa using fun t ht => isApplied_iff.2 (hforms t ht)
    have hfinish : (Arranger.mk out (pending ++ []) .operator).finish = .ok p.listing := by
      simp only [Arranger.finish, hall, ↓reduceIte]
      rw [List.append_nil, hout]
      simp
    rw [arrange, scan_of_reads hreads]
    simp only [bind, Except.bind, Arranger.start, hrun, hfinish]

end Token

end DeskCalculator
