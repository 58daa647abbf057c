import DeskCalculator.Grammar
import Mathlib.Data.List.Chain

/-!
# Neighbouring tokens

Which tokens of an expression can stand side by side, at every level of the grammar: no operand
follows the end of another, every function is applied, and no group is empty.

* `Token.follows`: a token may come after another;
* `joined_of_derives`: the tokens of a phrase follow one another, do not begin with the end of a
  group and end with the end of an operand.
-/

namespace DeskCalculator

namespace Token

/-- The token begins an operand, signs apart. -/
def beginsOperand : Token → Bool
  | number _ | constant _ | function _ | opening => true
  | _ => false

/-- The token ends an operand. -/
def endsOperand : Token → Bool
  | number _ | constant _ | closing => true
  | _ => false

/-- The second token may come after the first. -/
def follows : Token → Token → Bool
  | number _, t | constant _, t | closing, t => !t.beginsOperand
  | function _, t => t = opening
  | operator _, t | sign _, t | opening, t => t ≠ closing

/-- Tokens that follow one another, and begin and end as an operand does. -/
structure Joined (tokens : List Token) : Prop where
  chain : tokens.IsChain fun s t => s.follows t = true
  first : ∃ t ∈ tokens.head?, t ≠ closing
  last : ∃ t ∈ tokens.getLast?, t.endsOperand = true

theorem follows_of_endsOperand {s t : Token} (hs : s.endsOperand = true)
    (ht : t.beginsOperand = false) : s.follows t = true := by
  cases s <;> simp_all [endsOperand, follows]

theorem not_endsOperand_of_follows {s t : Token} (h : s.follows t = true)
    (ht : t.beginsOperand = true) : s.endsOperand = false := by
  cases s <;> simp_all [endsOperand, follows]

theorem endsOperand_of_follows_closing {s : Token} (h : s.follows closing = true) :
    s.endsOperand = true := by
  cases s <;> simp_all [endsOperand, follows]

namespace Joined

variable {ls rs ts : List Token}

theorem single {t : Token} (hne : t ≠ closing) (ht : t.endsOperand = true) : Joined [t] where
  chain := .singleton t
  first := ⟨t, rfl, hne⟩
  last := ⟨t, rfl, ht⟩

/-- Anything but the end of a group can stand before a phrase. -/
theorem cons_chain (h : Joined ts) {s : Token} (hs : ∀ t, t ≠ closing → s.follows t = true) :
    (s :: ts).IsChain fun s t => s.follows t = true := by
  obtain ⟨t, ht, hne⟩ := h.first
  refine h.chain.cons fun t' ht' => ?_
  obtain rfl := Option.mem_unique ht ht'
  exact hs t hne

theorem signed (h : Joined ts) (o : Operator) : Joined (.operator o :: ts) where
  chain := h.cons_chain fun t ht => by simpa [follows] using ht
  first := ⟨_, rfl, nofun⟩
  last := by
    obtain ⟨t, ht, hend⟩ := h.last
    exact ⟨t, by rw [List.getLast?_cons, Option.mem_def.1 ht]; rfl, hend⟩

theorem binary (hl : Joined ls) (hr : Joined rs) (o : Operator) :
    Joined (ls ++ .operator o :: rs) where
  chain := by
    refine hl.chain.append (hr.signed o).chain fun s hs t ht => ?_
    obtain ⟨s', hs', hend⟩ := hl.last
    obtain rfl := Option.mem_unique hs' hs
    obtain rfl := Option.mem_some_iff.1 ht
    exact follows_of_endsOperand hend rfl
  first := by
    obtain ⟨t, ht, hne⟩ := hl.first
    exact ⟨t, by rw [List.head?_append, Option.mem_def.1 ht]; rfl, hne⟩
  last := by
    obtain ⟨t, ht, hend⟩ := (hr.signed o).last
    exact ⟨t, by rw [List.getLast?_append, Option.mem_def.1 ht]; rfl, hend⟩

theorem group (h : Joined ts) : Joined (.opening :: ts ++ [.closing]) where
  chain := by
    have hopen := h.cons_chain (s := .opening) fun t ht => by simpa [follows] using ht
    refine hopen.append (.singleton closing) fun s hs t ht => ?_
    obtain ⟨s', hs', hend⟩ := h.last
    rw [List.getLast?_cons, Option.mem_def.1 hs'] at hs
    obtain rfl := Option.mem_some_iff.1 hs
    obtain rfl := Option.mem_some_iff.1 ht
    exact follows_of_endsOperand hend rfl
  first := ⟨_, rfl, nofun⟩
  last := ⟨closing, List.getLast?_concat .., rfl⟩

theorem call (h : Joined ts) (f : Function) :
    Joined (.function f :: .opening :: ts ++ [.closing]) where
  chain := h.group.chain.cons fun t ht => by
    obtain rfl := Option.mem_some_iff.1 ht
    rfl
  first := ⟨_, rfl, nofun⟩
  last := ⟨closing, List.getLast?_concat .., rfl⟩

end Joined

/-- The tokens of a phrase of any level follow one another. -/
theorem joined_of_derives {level : Level} {tokens : List Token} {p : Phrase}
    (h : Derives level tokens p) : Joined tokens := by
  induction h with
  | sum _ _ _ ihl ihr => exact ihl.binary ihr _
  | product _ _ _ ihl ihr => exact ihl.binary ihr _
  | power _ _ ihl ihr => exact ihl.binary ihr _
  | signed _ _ ih => exact ih.signed _
  | number value => exact .single nofun rfl
  | constant c => exact .single nofun rfl
  | call _ ih => exact ih.call _
  | group _ ih => exact ih.group
  | sumOfProduct _ ih | productOfPower _ ih | powerOfUnary _ ih | unaryOfAtom _ ih => exact ih

end Token

end DeskCalculator
