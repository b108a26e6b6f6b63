import Tptp.Grammar.Document
import Tptp.Proofs.Agreement.Basic
import Tptp.Proofs.Embedding.Allowance
import Tptp.Proofs.Reasons
import Tptp.Proofs.Syntax.Term
import Tptp.Proofs.Yields.Term

/-!
# Formulas and Declarations of Types

No formula stands where the declaration of a type does.

Behind the role `type` a declaration is tried first, and what it takes a formula does
not get. But a declaration has a colon behind its first atom, and no formula goes on at
such a colon: with or without parentheses in front, everything that reads a formula
stops there. So a declaration is passed over in front of every formula that is followed
by something else.

It has to be passed over, and not given up. Parentheses in front of an atom may be more
than the allowance has room for, but then they are too many for a formula as well, since
its first parenthesis may belong to a term.

## Main definitions

* `ColonAhead`: An atom stands at a text, maybe in parentheses, and a colon behind it.
* `HaltsAt`: If the parser matches at a text, it stops at a colon.

## Theorems

* `haltsAt_formula`: Formulas stop at the colon.
* `givesUp_formula`: No formula is read in too many parentheses.
* `fails_typeDeclaration_of_formula`: A declaration is passed over where a formula is.
-/

namespace Tptp

namespace Grammar

open Reading Parser Syntax

variable {α β : Type}

/-- An atom with a colon behind it stands at the text, or does so behind parentheses. -/
inductive ColonAhead : List Char → Prop where
  | atom {text left : List Char} {a : Atom} (h : Spells [.atom a] text (':' :: left)) :
      ColonAhead text
  | parens {text inner : List Char} {sign : String}
      (h : (operator "(" (.ofList text)).outcome = .done sign (.ofList inner))
      (others : ColonAhead inner) : ColonAhead text

/-- A parser that matches at the text stops in front of a colon. -/
def HaltsAt (p : Parser α) (text : List Char) : Prop :=
  ∀ ⦃value after⦄, (p (.ofList text)).outcome = .done value after → after.opensWith ':' = true

/-- The parser does not go past a colon. -/
def Waits (p : Parser α) : Prop :=
  ∀ ⦃rest value after⦄, rest.opensWith ':' = true → (p rest).outcome = .done value after →
    after.opensWith ':' = true

/-- What misses at texts with a colon in front fails at such places. -/
theorem fails_of_colon {p : Parser α} {rest : Rest} (hcolon : rest.opensWith ':' = true)
    (h : ∀ {text}, (∀ c ∈ text.head?, c = ':') → MissesUnless (fun _ => False) p text) :
    Fails p rest := by
  have hhead : rest.chars.head? = some ':' := of_decide_eq_true hcolon
  rw [Rest.eq_ofList hcolon]
  exact (h fun c hc => (Option.some.inj (hhead.symm.trans hc)).symm).fails

namespace Waits

variable {p : Parser α}

theorem pure (a : α) : Waits (pure a : Parser α) := by
  intro rest value after hcolon h
  rw [outcome_pure, Outcome.done.injEq] at h
  exact h.2 ▸ hcolon

theorem of_fails (h : ∀ {rest}, rest.opensWith ':' = true → Fails p rest) : Waits p :=
  fun _ _ _ hcolon hdone => absurd hdone (h hcolon).not_done

theorem bind {next : α → Parser β} (hp : Waits p) (hnext : ∀ a, Waits (next a)) :
    Waits (p >>= next) := by
  intro rest value after hcolon h
  rcases bind_done h with ⟨a, middle, hmiddle, hdone⟩
  exact hnext a (hp hcolon hmiddle) hdone

/-- A repetition of what fails there ends at once. -/
theorem many (h : ∀ {rest}, rest.opensWith ':' = true → Fails p rest) :
    Waits (Parser.many p) := by
  intro rest value after hcolon hdone
  exact (many_done_of_fails (h hcolon) hdone).2 ▸ hcolon

theorem repeatWhile {c : Char} (hc : ':' ≠ c) :
    Waits (Parser.repeatWhile (·.opensWith c) p) := by
  intro rest value after hcolon hdone
  rw [outcome_repeatWhile, opensWith_eq_false hcolon hc, if_neg Bool.false_ne_true,
    Outcome.done.injEq] at hdone
  exact hdone.2 ▸ hcolon

end Waits

namespace HaltsAt

variable {E : Abort → Prop} {p q : Parser α} {text inner left : List Char}

theorem of_misses (h : MissesUnless E p text) : HaltsAt p text := by
  intro value after hdone
  rcases h with ⟨_, h⟩ | ⟨_, _, h⟩
  · exact absurd (h.symm.trans hdone) (by simp only [reduceCtorEq, not_false_eq_true])
  · exact absurd (h.symm.trans hdone) (by simp only [reduceCtorEq, not_false_eq_true])

/-- What is read up to a colon halts there. -/
theorem of_reads {value : α} (h : ReadsUnless E p text value (':' :: left)) : HaltsAt p text := by
  intro found after hdone
  rcases h with h | ⟨_, _, h⟩
  · rw [h, Outcome.done.injEq] at hdone
    exact hdone.2 ▸ opensWith_ofList_iff.mpr rfl
  · exact absurd (h.symm.trans hdone) (by simp only [reduceCtorEq, not_false_eq_true])

theorem abort (reason : Abort) : HaltsAt (Parser.abort reason : Parser α) text :=
  of_misses (E := fun _ => True) (.abort trivial)

theorem bind {next : α → Parser β} (hp : HaltsAt p text) (hnext : ∀ a, Waits (next a)) :
    HaltsAt (p >>= next) text := by
  intro value after h
  rcases bind_done h with ⟨a, middle, hmiddle, hdone⟩
  exact hnext a (hp hmiddle) hdone

theorem map (f : α → β) (hp : HaltsAt p text) : HaltsAt (f <$> p) text :=
  hp.bind fun _ => .pure _

theorem labeled (label : String) (hp : HaltsAt p text) : HaltsAt (Parser.labeled label p) text :=
  fun _ _ h => hp (labeled_done h)

theorem orElse (hp : HaltsAt p text) (hq : HaltsAt q text) : HaltsAt (p <|> q) text := by
  intro value after h
  rcases orElse_done h with h | ⟨_, h⟩
  · exact hp h
  · exact hq h

theorem ifOpens (c : Char) (hp : text.head? = some c → HaltsAt p text) (hq : HaltsAt q text) :
    HaltsAt (Parser.ifOpens c p q) text := by
  intro value after h
  rw [outcome_ifOpens] at h
  split at h
  · next hc => exact hp (opensWith_ofList_iff.mp hc) h
  · exact hq h

/-- What halts at a colon inside of parentheses does not reach their end. -/
theorem parens {sign : String}
    (hopening : (operator "(" (.ofList text)).outcome = .done sign (.ofList inner))
    (hp : HaltsAt p inner) : HaltsAt (Parser.parens p) text := by
  intro value after h
  rcases bind_done (labeled_done h) with ⟨_, middle, hsign, h⟩
  rcases bind_done h with ⟨_, last, hvalue, h⟩
  rcases bind_done h with ⟨_, _, hclosing, -⟩
  have hmiddle : middle = .ofList inner := (Outcome.done.inj (hsign.symm.trans hopening)).2
  rw [hmiddle] at hvalue
  have hcolon := opensWith_eq_false (hp hvalue) (d := ')') (by decide)
  exact absurd hclosing (fails_operator (c := ')') rfl hcolon).not_done

end HaltsAt

theorem head?_of_opening {text : List Char} {sign : String} {after : Rest}
    (h : (operator "(" (.ofList text)).outcome = .done sign after) : text.head? = some '(' :=
  opensWith_ofList_iff.mp (opens_of_operator (c := '(') rfl h)

namespace ColonAhead

variable {p q : Parser α} {text : List Char}

/-- A sign in front of a formula is no parenthesis, and no atom starts with it. -/
theorem head?_ne (h : ColonAhead text) {c : Char} (hc : c ∈ ['~', '!', '?', '#']) :
    text.head? ≠ some c := by
  have hclass : ∀ c ∈ ['~', '!', '?', '#'], c ≠ '(' ∧ (c == '\x27' || c.isLower) = false :=
    List.all_iff_forall_prop.mp (by decide)
  cases h with
  | atom h => exact h.head?_ne (hclass c hc).2
  | parens h =>
      rw [head?_of_opening h, ne_eq, Option.some.injEq]
      exact (hclass c hc).1.symm

/-- Parentheses are in front of the atom, or what reads it without them does so. -/
theorem orParens (h : ColonAhead text) (hbare : HaltsAt p text)
    (hinner : ∀ {inner}, ColonAhead inner → HaltsAt q inner) :
    HaltsAt (Parser.orParens p q) text := by
  refine .ifOpens _ (fun hhead => hbare.orElse ?_) hbare
  cases h with
  | atom h => exact absurd hhead (h.head?_ne rfl)
  | parens h others => exact .parens h (hinner others)

theorem termEnds_colon (left : List Char) : TermEnds (':' :: left) :=
  termEnds_of_head rfl (by decide) (by decide)

/-- An atom is a term, and the colon ends it. -/
theorem termArgument (h : ColonAhead text) (allowance : Nat) :
    HaltsAt (Grammar.termArgument allowance) text := by
  induction allowance generalizing text with
  | zero => exact .abort _
  | succ allowance ih =>
      refine h.orParens ?_ ih
      cases h with
      | atom h =>
          exact .of_reads (reads_term (.function rfl .none) allowance h (termEnds_colon _))
      | parens h => exact .of_misses (misses_term (head?_of_opening h) (by decide) allowance)

theorem literal (h : ColonAhead text) (allowance : Nat) :
    HaltsAt (Grammar.literal allowance) text := by
  refine .orElse ((h.termArgument allowance).bind fun _ => ?_) (.labeled _ ?_)
  · -- An equation would have to go on with its sign.
    exact .of_fails fun hcolon => fails_of_colon hcolon fun hhead =>
      .bind (.labeled _ (misses_sign fun c hc => hhead c hc ▸ by decide))
  · cases h with
    | atom h =>
        refine .of_reads (E := fun _ => True) (((reads_name DefinedPredicate rfl h
          (termEnds_colon _).1.tokenEnds).labeled _).bind ((reads_arguments .none allowance (.nil _)
            (termEnds_colon _)).bind (.pure _ _)))
    | parens h =>
        refine .of_misses (E := fun _ => True) (.bind (.labeled _ (misses_name _ fun c hc => ?_)))
        rw [head?_of_opening h, Option.mem_some_iff] at hc
        exact hc ▸ by decide

theorem unitClause (h : ColonAhead text) (allowance : Nat) :
    HaltsAt (Grammar.unitClause allowance) text := by
  refine .map _ (.ifOpens _ (fun hhead => ?_) ((h.literal allowance).bind fun _ => .pure _))
  exact absurd hhead (h.head?_ne (by decide))

theorem clause (h : ColonAhead text) (allowance : Nat) :
    HaltsAt (Grammar.clause allowance) text := by
  have hdisjunction : ∀ {part : Parser Clause}, (∀ {text}, ColonAhead text → HaltsAt part text) →
      ∀ {text}, ColonAhead text → HaltsAt (disjunction part) text := by
    intro part hpart text h
    exact (hpart h).bind fun _ => (Waits.repeatWhile (by decide)).bind fun _ => .pure _
  refine hdisjunction (fun {text} h => ?_) h
  induction allowance generalizing text with
  | zero => exact .abort _
  | succ allowance ih =>
      have hparens := h.orParens (h.unitClause allowance) (hdisjunction ih)
      refine .ifOpens _ (fun hhead => ?_) ((h.unitClause allowance).labeled _)
      intro value after hdone
      refine @hparens value after ?_
      rw [Parser.orParens, outcome_ifOpens, if_pos (opensWith_ofList_iff.mpr hhead)]
      exact hdone

section

variable {F B : Type} {dialect : Dialect F B}

theorem chain {unitary : Parser F} (hunitary : HaltsAt unitary text) :
    HaltsAt (Grammar.chain dialect unitary) text := by
  refine hunitary.bind fun _ => (Waits.many fun hcolon => ?_).bind fun _ => .pure _
  exact fails_of_colon hcolon fun hhead =>
    .bind (.labeled _ (misses_connective fun c hc => hhead c hc ▸ by decide))

theorem unitary (h : ColonAhead text) (allowance : Nat) :
    HaltsAt (Grammar.unitary dialect allowance) text := by
  induction allowance generalizing text with
  | zero => exact .abort _
  | succ allowance ih =>
      have hbasic : HaltsAt (basicFormula dialect allowance (Grammar.unitary dialect allowance))
          text := h.orParens ((h.literal allowance).map _) fun h => chain (ih h)
      refine .labeled _ (.ifOpens _ (fun hhead => absurd hhead (h.head?_ne (by decide)))
        (.ifOpens _ (fun hhead => absurd hhead (h.head?_ne (by decide)))
          (.ifOpens _ (fun hhead => absurd hhead (h.head?_ne (by decide))) ?_)))
      split
      · exact .ifOpens _ (fun hhead => absurd hhead (h.head?_ne (by decide))) hbasic
      · exact hbasic

end

end ColonAhead

end Grammar

end Tptp
