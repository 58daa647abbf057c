import DeskCalculator.Proofs.Postfix

/-!
# Trees from any tokens

A tree is built from the end of its tokens, which leaves no choice: the last token is the root, and
each operand ends where the one after it begins. So whatever the tokens are, a tree that is built from
them is the tree of the phrase that they list. The recursion is as deep as its tokens have been
measured, also where they are not those of a tree.

* `exists_phrase_of_build`: the tokens that an operand has used up are those of a phrase;
* `levels_le_of_build`: levels run out only among tokens that have been measured that deep;
* `ofPostfix_eq_ok_iff`: exactly the tokens of a phrase that is not too deep are a tree;
* `cause_of_ofPostfix`: why all others are refused;
* `ofPostfix_inverts_listing`: building inverts the listing of a tree.
-/

namespace DeskCalculator

/-- A cause for which tokens are not those of one tree in postfix order. -/
def SyntaxError.isNotPostfix : SyntaxError → Bool
  | missingOperand _ | strayParenthesis _ | missingOperator => true
  | _ => false

/-! ## A step that can fail -/

section Steps

variable {ε α β : Type} {x : Except ε α} {f : α → Except ε β}

theorem bind_eq_ok_iff {b : β} : x >>= f = .ok b ↔ ∃ a, x = .ok a ∧ f a = .ok b := by
  cases x <;> simp [bind, Except.bind]

theorem bind_eq_error_iff {e : ε} :
    x >>= f = .error e ↔ x = .error e ∨ ∃ a, x = .ok a ∧ f a = .error e := by
  cases x <;> simp [bind, Except.bind]

/-- What follows the step cannot fail. -/
theorem error_of_bind {e : ε} (hf : ∀ a, ∃ b, f a = .ok b) (h : x >>= f = .error e) :
    x = .error e := by
  rcases bind_eq_error_iff.1 h with hx | ⟨a, -, ha⟩
  · exact hx
  · obtain ⟨b, hb⟩ := hf a
    rw [hb] at ha
    cases ha

end Steps

/-! ## Depths from the end -/

namespace Token

/-- The depths of the operands among tokens, the last token and the last operand first. -/
def depths (tokens : List Token) : List Nat :=
  tokens.foldr (fun t depths => pushDepth depths t) []

theorem depths_cons (t : Token) (tokens : List Token) :
    depths (t :: tokens) = pushDepth (depths tokens) t := rfl

theorem depth_reverse (tokens : List Token) :
    depth tokens.reverse = (depths tokens).foldl max 0 := by
  rw [depth, List.foldl_reverse, depths]

/-- The tokens of a phrase are one operand, as deep as the phrase is high. -/
theorem depths_listing (p : Phrase) (rest : List Token) :
    depths (p.listing.reverse ++ rest) = p.height :: depths rest := by
  rw [depths, depths, ← List.foldl_reverse, ← List.foldl_reverse, List.reverse_append,
    List.reverse_reverse, List.foldl_append, p.foldl_pushDepth_listing]

theorem le_foldl_max (depths : List Nat) (n : Nat) : n ≤ depths.foldl max n := by
  induction depths generalizing n with
  | nil => exact Nat.le_refl n
  | cons d depths ih => exact Nat.le_trans (Nat.le_max_left n d) (ih (max n d))

/-- The last operand is no deeper than all of them are measured. -/
theorem headD_depths_le (tokens : List Token) :
    (depths tokens).headD 0 ≤ depth tokens.reverse := by
  rw [depth_reverse]
  cases depths tokens with
  | nil => exact Nat.le_refl 0
  | cons d ds =>
    rw [List.headD_cons, List.foldl_cons, Nat.zero_max]
    exact le_foldl_max ds d

theorem headD_le {n : Nat} {depths : List Nat} (h : ∀ d ∈ depths, d ≤ n) : depths.headD 0 ≤ n := by
  cases depths with
  | nil => exact Nat.zero_le n
  | cons d depths => exact h d List.mem_cons_self

/-- A token makes an operand deeper by one level at most. -/
theorem pushDepth_le {n : Nat} {depths : List Nat} (h : ∀ d ∈ depths, d ≤ n) (t : Token) :
    ∀ d ∈ pushDepth depths t, d ≤ n + 1 := by
  have htail : ∀ d ∈ depths.tail, d ≤ n := fun d hd => h d (List.mem_of_mem_tail hd)
  have htop := headD_le h
  have hsecond := headD_le htail
  intro d hd
  cases t with
  | sign s | function f =>
    rcases List.mem_cons.1 hd with rfl | hd
    · omega
    · exact Nat.le_succ_of_le (htail d hd)
  | operator o =>
    rcases List.mem_cons.1 hd with rfl | hd
    · omega
    · exact Nat.le_succ_of_le (htail d (List.mem_of_mem_tail hd))
  | number | constant | opening | closing =>
    rcases List.mem_cons.1 hd with rfl | hd
    · omega
    · exact Nat.le_succ_of_le (h d hd)

/-- Each level of an operand has a token. -/
theorem depths_le_length (tokens : List Token) : ∀ d ∈ depths tokens, d ≤ tokens.length := by
  induction tokens with
  | nil => exact fun d hd => absurd hd List.not_mem_nil
  | cons t tokens ih => exact pushDepth_le ih t

end Token

/-! ## Trees as phrases -/

namespace Expr

/-- The phrase of a tree: without plus signs. -/
def toPhrase : Expr → Phrase
  | literal value => .literal value
  | constant c => .constant c
  | negation e => .signed .minus e.toPhrase
  | binary o l r => .binary o l.toPhrase r.toPhrase
  | call f e => .call f e.toPhrase

theorem toExpr_toPhrase (e : Expr) : e.toPhrase.toExpr = e := by
  induction e with
  | literal | constant => rfl
  | negation e ih => rw [toPhrase, Phrase.toExpr, ih]
  | binary o l r ihl ihr => rw [toPhrase, Phrase.toExpr, ihl, ihr]
  | call f e ih => rw [toPhrase, Phrase.toExpr, ih]

theorem listing_toPhrase (e : Expr) : e.toPhrase.listing = e.listing := by
  induction e with
  | literal | constant => rfl
  | negation e ih => rw [toPhrase, Phrase.listing, ih, listing]
  | binary o l r ihl ihr => rw [toPhrase, Phrase.listing, ihl, ihr, listing]
  | call f e ih => rw [toPhrase, Phrase.listing, ih, listing]

theorem height_toPhrase (e : Expr) : e.toPhrase.height = e.height := by
  induction e with
  | literal | constant => rfl
  | negation e ih => rw [toPhrase, Phrase.height, ih, height]
  | binary o l r ihl ihr => rw [toPhrase, Phrase.height, ihl, ihr, height]
  | call f e ih => rw [toPhrase, Phrase.height, ih, height]

/-! ## Building -/

variable {levels : Nat} {place : OperandPlace} {tokens rest : List Token} {e : Expr}

/-- The tokens that an operand has used up are those of a phrase, and the operand is its tree. -/
theorem exists_phrase_of_build (h : build levels place tokens = .ok (e, rest)) :
    ∃ p : Phrase, p.toExpr = e ∧ tokens = p.listing.reverse ++ rest := by
  -- in turn: no level, no token, a number, a constant, a function, the signs, an operator, parentheses
  fun_induction build levels place tokens generalizing e rest with
  | case1 | case2 | case9 | case10 => cases h
  | case3 levels place rest' value =>
    obtain ⟨rfl, rfl⟩ := Prod.mk.inj (Except.ok.inj h)
    exact ⟨.literal value, rfl, rfl⟩
  | case4 levels place rest' c =>
    obtain ⟨rfl, rfl⟩ := Prod.mk.inj (Except.ok.inj h)
    exact ⟨.constant c, rfl, rfl⟩
  | case5 levels place rest' f ih =>
    obtain ⟨⟨argument, left⟩, hargument, hcall⟩ := bind_eq_ok_iff.1 h
    obtain ⟨rfl, rfl⟩ := Prod.mk.inj (Except.ok.inj hcall)
    obtain ⟨p, rfl, rfl⟩ := ih hargument
    exact ⟨.call f p, rfl, by simp [Phrase.listing]⟩
  | case6 levels place rest' ih =>
    obtain ⟨p, rfl, rfl⟩ := ih h
    exact ⟨.signed .plus p, rfl, by simp [Phrase.listing]⟩
  | case7 levels place rest' ih =>
    obtain ⟨⟨operand, left⟩, hoperand, hsigned⟩ := bind_eq_ok_iff.1 h
    obtain ⟨rfl, rfl⟩ := Prod.mk.inj (Except.ok.inj hsigned)
    obtain ⟨p, rfl, rfl⟩ := ih hoperand
    exact ⟨.signed .minus p, rfl, by simp [Phrase.listing]⟩
  | case8 levels place rest' o ihr ihl =>
    obtain ⟨⟨right, between⟩, hright, h⟩ := bind_eq_ok_iff.1 h
    obtain ⟨⟨left, below⟩, hleft, hbinary⟩ := bind_eq_ok_iff.1 h
    obtain ⟨rfl, rfl⟩ := Prod.mk.inj (Except.ok.inj hbinary)
    obtain ⟨q, rfl, rfl⟩ := ihr hright
    obtain ⟨p, rfl, rfl⟩ := ihl between hleft
    exact ⟨.binary o p q, rfl, by simp [Phrase.listing]⟩

/-- Levels run out only among tokens that are measured as deep. -/
theorem levels_le_of_build (h : build levels place tokens = .error .nestedTooDeep) :
    levels ≤ (Token.depths tokens).headD 0 := by
  fun_induction build levels place tokens with
  | case1 => exact Nat.zero_le _
  | case2 | case3 | case4 | case9 | case10 => cases h
  | case5 levels place rest f ih =>
    have hargument := error_of_bind (fun _ => ⟨_, rfl⟩) h
    exact Nat.succ_le_succ (ih hargument)
  | case6 levels place rest ih => exact Nat.succ_le_succ (ih h)
  | case7 levels place rest ih =>
    have hoperand := error_of_bind (fun _ => ⟨_, rfl⟩) h
    exact Nat.succ_le_succ (ih hoperand)
  | case8 levels place rest o ihr ihl =>
    rw [Token.depths_cons, Token.pushDepth, List.headD_cons]
    refine Nat.succ_le_succ ?_
    rcases bind_eq_error_iff.1 h with hright | ⟨⟨right, between⟩, hright, h⟩
    · exact Nat.le_trans (ihr hright) (Nat.le_max_left _ _)
    · have hleft := error_of_bind (fun _ => ⟨_, rfl⟩) h
      -- the right operand has taken one depth, and the left one is measured below it
      obtain ⟨q, -, rfl⟩ := exists_phrase_of_build hright
      rw [Token.depths_listing, List.headD_cons, List.tail_cons]
      exact Nat.le_trans (ihl between hleft) (Nat.le_max_right _ _)

/-- Other causes than too many levels lie in the tokens. -/
theorem isNotPostfix_of_build {cause : SyntaxError} (h : build levels place tokens = .error cause)
    (hne : cause ≠ .nestedTooDeep) : cause.isNotPostfix = true := by
  fun_induction build levels place tokens with
  | case1 => exact absurd (Except.error.inj h).symm hne
  | case3 | case4 => cases h
  | case2 | case9 | case10 =>
    obtain rfl := Except.error.inj h
    rfl
  | case5 levels place rest f ih | case7 levels place rest ih =>
    exact ih (error_of_bind (fun _ => ⟨_, rfl⟩) h)
  | case6 levels place rest ih => exact ih h
  | case8 levels place rest o ihr ihl =>
    rcases bind_eq_error_iff.1 h with hright | ⟨⟨right, between⟩, -, h⟩
    · exact ihr hright
    · exact ihl between (error_of_bind (fun _ => ⟨_, rfl⟩) h)

/-- The levels that `ofPostfix` gives are never used up. -/
theorem build_ne_nestedTooDeep (tokens : List Token) :
    build (tokens.length + 1) .whole tokens.reverse ≠ .error .nestedTooDeep := by
  intro h
  have hlevels := levels_le_of_build h
  have hlength := Token.headD_le (Token.depths_le_length tokens.reverse)
  rw [List.length_reverse] at hlength
  omega

/-- Exactly the tokens of a phrase that is not too deep are a tree, the one of the phrase. -/
theorem ofPostfix_eq_ok_iff :
    ofPostfix tokens = .ok e ↔
      ∃ p : Phrase, tokens = p.listing ∧ p.height ≤ maxDepth ∧ e = p.toExpr := by
  constructor
  · intro h
    rw [ofPostfix] at h
    split at h
    · cases h
    · next hdepth =>
      obtain ⟨⟨e', rest⟩, hbuild, h⟩ := bind_eq_ok_iff.1 h
      obtain ⟨p, rfl, htokens⟩ := exists_phrase_of_build hbuild
      simp only at h
      split at h
      · next hrest =>
        rw [hrest, List.append_nil, List.reverse_inj] at htokens
        rw [htokens, p.depth_listing] at hdepth
        exact ⟨p, htokens, Nat.le_of_not_lt hdepth, (Except.ok.inj h).symm⟩
      · cases h
  · rintro ⟨p, rfl, hheight, rfl⟩
    rw [p.ofPostfix_listing, if_neg (Nat.not_lt.2 hheight)]

/-- Tokens are refused for their depth, or because they are not those of one tree. -/
theorem cause_of_ofPostfix {cause : SyntaxError} (h : ofPostfix tokens = .error cause) :
    cause = .nestedTooDeep ∧ maxDepth < Token.depth tokens ∨
      cause.isNotPostfix = true ∧ Token.depth tokens ≤ maxDepth := by
  rw [ofPostfix] at h
  split at h
  · next hdepth => exact .inl ⟨(Except.error.inj h).symm, hdepth⟩
  · next hdepth =>
    refine .inr ⟨?_, Nat.le_of_not_lt hdepth⟩
    rcases bind_eq_error_iff.1 h with hbuild | ⟨⟨e, rest⟩, -, h⟩
    · refine isNotPostfix_of_build hbuild ?_
      rintro rfl
      exact build_ne_nestedTooDeep tokens hbuild
    · simp only at h
      split at h
      · cases h
      · obtain rfl := Except.error.inj h
        rfl

/-- Building a tree inverts its listing. From the listing of a tree that is not too deep exactly this
tree is built, and no token is left. If a tree is built from tokens of any kind, they are the listing
of the tree, plus signs apart. All other tokens are refused, for their depth or because they are not
those of one tree, and as many levels as have been measured, and one more, are enough to find out. -/
theorem ofPostfix_inverts_listing :
    (∀ e : Expr, e.height ≤ maxDepth →
      ofPostfix e.listing = .ok e ∧ build maxDepth .whole e.listing.reverse = .ok (e, [])) ∧
      ∀ tokens : List Token,
        (∀ e, ofPostfix tokens = .ok e → tokens.filter (· ≠ .sign .plus) = e.listing) ∧
          ((∀ e, ofPostfix tokens ≠ .ok e) → ∃ cause, ofPostfix tokens = .error cause ∧
            (cause = .nestedTooDeep ∧ maxDepth < Token.depth tokens ∨
              cause.isNotPostfix = true ∧ Token.depth tokens ≤ maxDepth)) ∧
          build (Token.depth tokens + 1) .whole tokens.reverse ≠ .error .nestedTooDeep := by
  refine ⟨fun e he => ?_, fun tokens => ⟨fun e h => ?_, fun hnone => ?_, fun h => ?_⟩⟩
  · have hbuild := e.toPhrase.build_listing maxDepth .whole []
    rw [listing_toPhrase, height_toPhrase, toExpr_toPhrase, if_neg (Nat.not_lt.2 he),
      List.append_nil] at hbuild
    refine ⟨ofPostfix_eq_ok_iff.2 ⟨e.toPhrase, ?_, ?_, ?_⟩, hbuild⟩
    · rw [listing_toPhrase]
    · rwa [height_toPhrase]
    · rw [toExpr_toPhrase]
  · obtain ⟨p, rfl, -, rfl⟩ := ofPostfix_eq_ok_iff.1 h
    exact p.listing_toExpr.symm
  · cases h : ofPostfix tokens with
    | error cause => exact ⟨cause, rfl, cause_of_ofPostfix h⟩
    | ok e => exact absurd h (hnone e)
  · have hlevels := levels_le_of_build h
    have hdepth := Token.headD_depths_le tokens.reverse
    rw [List.reverse_reverse] at hdepth
    omega

/-- A tree, its tokens with a plus sign among them, and tokens with a parenthesis. -/
theorem ofPostfix_inverts_listing_power :
    let e : Expr := .binary .power (.negation (.constant .e)) (.call .sin (.constant .pi))
    let tokens : List Token :=
      [.constant .e, .sign .minus, .constant .pi, .sign .plus, .function .sin, .operator .power]
    let grouped : List Token := [.constant .e, .constant .pi, .closing, .operator .add]
    ofPostfix e.listing = .ok e ∧ ofPostfix tokens = .ok e ∧
      tokens.filter (· ≠ .sign .plus) = e.listing ∧
      ∃ cause, ofPostfix grouped = .error cause ∧
        (cause = .nestedTooDeep ∧ maxDepth < Token.depth grouped ∨
          cause.isNotPostfix = true ∧ Token.depth grouped ≤ maxDepth) := by
  intro e tokens grouped
  have hbuilt : ofPostfix tokens = .ok e := rfl
  have hgrouped : ∀ e, ofPostfix grouped ≠ .ok e := by
    intro e
    have hcause : ofPostfix grouped = .error (.strayParenthesis .closing) := rfl
    rw [hcause]
    rintro ⟨⟩
  exact ⟨(ofPostfix_inverts_listing.1 e (by decide)).1, hbuilt,
    (ofPostfix_inverts_listing.2 tokens).1 e hbuilt,
    (ofPostfix_inverts_listing.2 grouped).2.1 hgrouped⟩

end Expr

end DeskCalculator
