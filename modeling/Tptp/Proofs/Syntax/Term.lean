import Mathlib.Data.Bool.AllAny
import Tptp.Proofs.Syntax.Grammar

/-!
# Reading Terms and Literals

The productions of terms and literals read exactly what the grammar says.

That nothing else is read goes by induction on the allowance. That everything is
read goes by induction on the derivation, and needs to know what stands behind:
a name takes an opening parenthesis for the start of its arguments, and an equality
sign may turn out to be the start of an arrow. `TermEnds` and `LiteralEnds` say what
may follow.

An application of a predicate reads like an application of a function. So where the
grammar means a predicate, the attempt to read an equation gets to the end of the
literal, and only there it fails.

## Main definitions

* `TermEnds`, `LiteralEnds`: What may follow a term or a literal.

## Theorems

* `relates_term`, `relates_termArgument`, `relates_literal`: Nothing else is read.
* `reads_term`, `reads_termArgument`, `reads_literal`: Everything is read.
* `misses_termArgument`: What no term starts with.
-/

namespace Tptp

namespace Syntax

open Reading Parser Grammar

variable {text left : List Char}

/-- What may follow a term. -/
def TermEnds (text : List Char) : Prop :=
  Stops text ∧ text.head? ≠ some '('

/-- What may follow a literal: no equality sign, unless it starts an arrow. -/
def LiteralEnds (text : List Char) : Prop :=
  TermEnds text ∧
    ((∀ c ∈ text.head?, (c == '=' || c == '!') = false) ∨ ∃ rest, text = '=' :: '>' :: rest)

theorem termEnds_of_head {c : Char} (h : text.head? = some c) (hc : c ∈ stoppers)
    (hopening : c ≠ '(') : TermEnds text := by
  refine ⟨fun d hd => ?_, fun hd => ?_⟩
  · rw [h, Option.mem_some_iff] at hd
    exact hd ▸ hc
  · rw [h, Option.some.injEq] at hd
    exact hopening hd

/-- A mark in front of other tokens is the first character. -/
theorem Spells.head_mark {m : Mark} {tokens : List Token}
    (h : Spells (.mark m :: tokens) text left) : text.head? = some m.char := by
  cases h with
  | cons hspelling _ _ =>
      cases hspelling
      rfl

/-- A sign in front of other tokens ends a term. -/
theorem Spells.termEnds_sign {s : Sign} {tokens : List Token}
    (h : Spells (.sign s :: tokens) text left) :
    TermEnds text ∧ text.head? ≠ some ')' := by
  cases h with
  | cons hspelling _ _ =>
      cases hspelling
      cases s
      · exact ⟨termEnds_of_head rfl (by decide) (by decide), fun h => absurd (Option.some.inj h)
          (by decide)⟩
      · exact ⟨termEnds_of_head rfl (by decide) (by decide), fun h => absurd (Option.some.inj h)
          (by decide)⟩

/-- The characters that open a formula or follow one, and no term. -/
def otherOpeners : List Char :=
  ['(', '~', '!', '?', '#', '>']

/-- No term without parentheses starts with one of the other characters. -/
theorem misses_term {c : Char} (h : text.head? = some c) (hc : c ∈ otherOpeners)
    (allowance : Nat) : MissesUnless (· = .tooDeep) (term allowance) text := by
  rcases List.head?_eq_some_iff.mp h with ⟨rest, rfl⟩
  cases allowance with
  | zero => exact .abort rfl
  | succ allowance =>
      have hclass : ∀ c ∈ otherOpeners, Text.isUpperCase c = false ∧ c ≠ '"' ∧
          (Text.isDigitLike c || c = '+' || c = '-') = false ∧ c ≠ '$' ∧ c ≠ '\x27' ∧
          c.isLower = false := List.all_iff_forall_prop.mp (by decide)
      rcases hclass c hc with ⟨hupper, hquote, hdigit, hname⟩
      have hfunction : MissesUnless (· = .tooDeep) (functionTerm (termArgument allowance))
          (c :: rest) := by
        refine .bind (.labeled _ (misses_name _ fun d hd => ?_))
        rw [List.head?_cons, Option.mem_some_iff] at hd
        exact hd ▸ hname
      refine .labeled _ ?_
      simp only [MissesUnless, Rest.chars_ofList, hupper, Bool.false_eq_true, if_false, hquote,
        hdigit]
      exact hfunction

/-- No term at all starts with one of the other characters but the parenthesis. -/
theorem misses_termArgument {c : Char} (h : text.head? = some c) (hc : c ∈ otherOpeners)
    (hopening : c ≠ '(') (allowance : Nat) : Misses (termArgument allowance) text := by
  cases allowance with
  | zero => exact .abort trivial
  | succ allowance =>
      refine misses_ifOpens_of_ne (fun hhead => ?_) (misses_term h hc allowance).misses
      rw [h, Option.some.injEq] at hhead
      exact hopening hhead

/-- What a term is read as, by its first character. -/
theorem reads_termRule {argument : Parser Term} {c : Char} {rest : List Char} {t : Term}
    (h : Reads (if Text.isUpperCase c then Term.var <$> var
      else if c = '"' then Term.distinct <$> distinctObject
      else if Text.isDigitLike c || c = '+' || c = '-' then Term.number <$> number
      else functionTerm argument) (c :: rest) t left) :
    Reads (termRule argument) (c :: rest) t left := by
  refine .labeled _ ?_
  simp only [ReadsUnless, Rest.chars_ofList]
  by_cases hupper : Text.isUpperCase c = true
  · rw [if_pos hupper] at h
    simp only [if_pos hupper]
    exact h
  rw [if_neg hupper] at h
  by_cases hquote : c = '"'
  · rw [if_pos hquote] at h
    simp only [if_neg hupper, if_pos hquote]
    exact h
  rw [if_neg hquote] at h
  by_cases hdigit : (Text.isDigitLike c || c = '+' || c = '-') = true
  · rw [if_pos hdigit] at h
    simp only [if_neg hupper, if_neg hquote, if_pos hdigit]
    exact h
  · rw [if_neg hdigit] at h
    simp only [if_neg hupper, if_neg hquote, if_neg hdigit]
    exact h

/-- Characters below the letters and digits of the whole character set. -/
theorem isUpperCase_of_isUpper {c : Char} (h : c.isUpper = true) : Text.isUpperCase c = true := by
  have hrange := (Text.isUpper_iff c).mp h
  rw [Text.isUpperCase_iff_of_ascii c (by omega)]
  exact h

/-- A digit or a sign opens a number. -/
theorem opens_number {c : Char} (h : (c.isDigit || c == '+' || c == '-') = true) :
    Text.isUpperCase c = false ∧ c ≠ '"' ∧
      (Text.isDigitLike c || c = '+' || c = '-') = true := by
  simp only [Bool.or_eq_true, beq_iff_eq, or_assoc] at h
  rcases h with h | rfl | rfl
  · have hrange := (Text.isDigit_iff c).mp h
    refine ⟨?_, ?_, ?_⟩
    · rw [Text.isUpperCase_iff_of_ascii c (by omega), ← Bool.not_eq_true, Text.isUpper_iff]
      omega
    · rintro rfl
      exact absurd h (by decide)
    · rw [Text.isDigitLike_iff_of_ascii c (by omega), h, Bool.true_or, Bool.true_or]
  · decide
  · decide

/-- A name opens with nothing that opens another term. -/
theorem opens_name {V : Type} [Vocabulary V] {token : Token} {n : Name V} {c : Char}
    (hname : token.name? V = some n) (h : token.opens c = true) :
    Text.isUpperCase c = false ∧ c ≠ '"' ∧
      (Text.isDigitLike c || c = '+' || c = '-') = false ∧ c ∉ otherOpeners := by
  -- Both kinds of names open with one special character or with a letter.
  have hlower : c.isLower = true → Text.isUpperCase c = false ∧ c ≠ '"' ∧
      (Text.isDigitLike c || c = '+' || c = '-') = false ∧ c ∉ otherOpeners := by
    intro hc
    have hrange := (Text.isLower_iff c).mp hc
    have hne : ∀ d : Char, d.isLower = false → c ≠ d := by
      rintro d hd rfl
      rw [hc] at hd
      exact absurd hd (by decide)
    refine ⟨?_, hne _ (by decide), ?_, fun hmem => ?_⟩
    · rw [Text.isUpperCase_iff_of_ascii c (by omega), ← Bool.not_eq_true, Text.isUpper_iff]
      omega
    · rw [Text.isDigitLike_iff_of_ascii c (by omega), decide_eq_false (hne '+' (by decide)),
        decide_eq_false (hne '-' (by decide)), Bool.or_false, Bool.or_false, ← Bool.not_eq_true,
        Text.isDigit_iff]
      omega
    · have hall : ∀ d ∈ otherOpeners, d.isLower = false :=
        List.all_iff_forall_prop.mp (by decide)
      exact hne c (hall c hmem) rfl
  cases token with
  | reserved word =>
      rw [beq_iff_eq.mp h]
      decide
  | atom a =>
      simp only [Token.opens, Bool.or_eq_true, beq_iff_eq] at h
      rcases h with rfl | h
      · decide
      · exact hlower h
  | _ => exact absurd hname (by simp only [Token.name?, reduceCtorEq, not_false_eq_true])

/-- An application of a function symbol is read if its arguments are. -/
theorem reads_functionTerm {allowance : Nat} {token : Token} {name : FunctionName}
    {terms : List Term} {middle : List Char} (hname : token.name? DefinedFunction = some name)
    (htoken : Spells [token] text middle) (hmiddle : Stops middle)
    (hterms : Reads (arguments (termArgument allowance)) middle terms left) :
    Reads (term (allowance + 1)) text (.function name terms) left := by
  have happlication : Reads (functionTerm (termArgument allowance)) text
      (.function name terms) left :=
    ((reads_name _ hname htoken hmiddle.tokenEnds).labeled _).bind (hterms.bind (.pure _ _))
  rcases htoken.exists_cons with ⟨c, rest, rfl, hc⟩
  rcases opens_name hname hc with ⟨hupper, hquote, hdigit, -⟩
  refine reads_termRule ?_
  rw [hupper, if_neg Bool.false_ne_true, if_neg hquote, hdigit, if_neg Bool.false_ne_true]
  exact happlication

/-- What stands in parentheses is read if it is read inside of them. -/
theorem reads_parens {α : Type} {p : Parser α} {value : α} {tokens : List Token}
    (h : Spells (.mark .opening :: (tokens ++ [.mark .closing])) text left)
    (hleft : Significant left)
    (hp : ∀ {inner middle}, Spells tokens inner middle → middle.head? = some ')' →
      Reads p inner value middle) : Reads (parens p) text value left := by
  rcases spells_cons.mp h with ⟨inner, hopening, htokens⟩
  rcases spells_append.mp htokens with ⟨middle, hinner, hclosing⟩
  have hmiddle := hclosing.significant hleft
  refine .labeled _ ((reads_operator rfl hopening (hinner.significant hmiddle)).bind ?_)
  exact (hp hinner hclosing.head_mark).bind ((reads_operator rfl hclosing hleft).bind (.pure _ _))

/-- What stands in parentheses is read where they are possible, if it is not mistaken
    for something else. -/
theorem reads_orParens_of_misses {α : Type} {bare inner : Parser α} {value : α}
    {tokens : List Token} (h : Spells (.mark .opening :: (tokens ++ [.mark .closing])) text left)
    (hleft : Significant left) (hbare : Misses bare text)
    (hinner : ∀ {start middle}, Spells tokens start middle → middle.head? = some ')' →
      Reads inner start value middle) : Reads (orParens bare inner) text value left :=
  reads_ifOpens h.head_mark (.orElse_of_misses hbare (reads_parens h hleft hinner))

/-- What a list of arguments starts with ends a name in front of it. -/
theorem stops_arguments {tokens : List Token} {terms : List Term} (h : AreArguments tokens terms)
    (hspells : Spells tokens text left) (hleft : TermEnds left) : Stops text := by
  cases h with
  | none =>
      cases hspells
      exact hleft.1
  | some =>
      intro c hc
      rw [hspells.head_mark, Option.mem_some_iff] at hc
      exact hc ▸ by decide

/-- What stands behind an argument ends it. -/
theorem termEnds_moreArguments {tokens : List Token} {terms : List Term}
    (h : AreMoreArguments tokens terms) (hspells : Spells tokens text left) : TermEnds text := by
  cases h with
  | close => exact termEnds_of_head hspells.head_mark (by decide) (by decide)
  | comma => exact termEnds_of_head hspells.head_mark (by decide) (by decide)

/-- A term of one token is read if its token is. -/
theorem reads_one {token : Token} {t : Term} {p : Parser Term} (h : Spells [token] text left)
    (hp : Reads p text t left) (allowance : Nat)
    (hclass : ∀ c, token.opens c = true → (if Text.isUpperCase c then Term.var <$> var
      else if c = '"' then Term.distinct <$> distinctObject
      else if Text.isDigitLike c || c = '+' || c = '-' then Term.number <$> number
      else functionTerm (termArgument allowance)) = p) :
    Reads (term (allowance + 1)) text t left := by
  rcases h.exists_cons with ⟨c, rest, rfl, hc⟩
  refine reads_termRule ?_
  rw [hclass c hc]
  exact hp

mutual

/-- Terms are read. -/
theorem reads_term : ∀ {tokens : List Token} {t : Term}, IsTerm tokens t →
    ∀ (allowance : Nat) {text left : List Char}, Spells tokens text left → TermEnds left →
      Reads (term allowance) text t left
  | _, _, _, 0, _, _, _, _ => .abort trivial
  | _, _, .var v, allowance + 1, _, _, hspells, hleft => by
      refine reads_one hspells ((reads_var hspells hleft.1.tokenEnds).map _) allowance
        fun c hc => ?_
      rw [if_pos (isUpperCase_of_isUpper hc)]
  | _, _, .distinct d, allowance + 1, _, _, hspells, hleft => by
      refine reads_one hspells ((reads_distinctObject hspells hleft.1).map _) allowance
        fun c hc => ?_
      rw [beq_iff_eq.mp hc]
      rfl
  | _, _, .number n, allowance + 1, _, _, hspells, hleft => by
      refine reads_one hspells ((reads_numberToken hspells hleft.1).map _) allowance
        fun c hc => ?_
      rcases opens_number hc with ⟨hupper, hquote, hdigit⟩
      rw [hupper, if_neg Bool.false_ne_true, if_neg hquote, if_pos hdigit]
  | _, _, .function hname hterms, allowance + 1, _, _, hspells, hleft => by
      rcases spells_cons.mp hspells with ⟨middle, htoken, harguments⟩
      exact reads_functionTerm hname htoken (stops_arguments hterms harguments hleft)
        (reads_arguments hterms allowance harguments hleft)

/-- Terms in parentheses are read. -/
theorem reads_termArgument : ∀ {tokens : List Token} {t : Term}, IsArgument tokens t →
    ∀ (allowance : Nat) {text left : List Char}, Spells tokens text left → TermEnds left →
      Reads (termArgument allowance) text t left
  | _, _, _, 0, _, _, _, _ => .abort trivial
  | _, _, .bare h, allowance + 1, _, _, hspells, hleft =>
    reads_orParens (reads_term h allowance hspells hleft)
  | _, _, .parens h, allowance + 1, _, _, hspells, hleft => by
      refine reads_orParens_of_misses hspells hleft.1.significant
        (misses_term hspells.head_mark (by decide) allowance).misses fun hinner hclosing => ?_
      exact reads_termArgument h allowance hinner
        (termEnds_of_head hclosing (by decide) (by decide))

/-- Lists of arguments are read. -/
theorem reads_arguments : ∀ {tokens : List Token} {terms : List Term}, AreArguments tokens terms →
    ∀ (allowance : Nat) {text left : List Char}, Spells tokens text left → TermEnds left →
      Reads (arguments (termArgument allowance)) text terms left
  | _, _, .none, allowance, _, _, hspells, hleft => by
      cases hspells
      exact reads_ifOpens_of_ne hleft.2 (.pure [] _)
  | _, _, .some hfirst hothers, allowance, _, left, hspells, hleft => by
      rcases spells_cons.mp hspells with ⟨inner, hopening, htokens⟩
      rcases spells_append.mp htokens with ⟨middle, hfront, hback⟩
      have hmiddle := termEnds_moreArguments hothers hback
      rcases reads_moreArguments hothers allowance hback hleft.1.significant with
        ⟨last, hreads, hclosing⟩
      refine reads_ifOpens hspells.head_mark ?_
      refine (reads_operator rfl hopening (hfront.significant hmiddle.1.significant)).bind ?_
      refine (reads_termArgument hfirst allowance hfront hmiddle).bind (hreads.bind ?_)
      exact (reads_operator rfl hclosing hleft.1.significant).bind (.pure _ _)

/-- Further arguments are read up to the parenthesis that closes the list. -/
theorem reads_moreArguments : ∀ {tokens : List Token} {terms : List Term},
    AreMoreArguments tokens terms → ∀ (allowance : Nat) {text left : List Char},
      Spells tokens text left → Significant left →
        ∃ last, Reads (repeatWhile (·.opensWith ',') (comma (termArgument allowance))) text terms
          last ∧ Spells [.mark .closing] last left
  | _, _, .close, allowance, text, _, hspells, _ => by
      refine ⟨text, .repeatWhile_nil ?_, hspells⟩
      rw [← Bool.not_eq_true, opensWith_ofList_iff, hspells.head_mark]
      exact by decide
  | _, _, .comma hfirst hothers, allowance, _, _, hspells, hleft => by
      rcases spells_cons.mp hspells with ⟨inner, hcomma, htokens⟩
      rcases spells_append.mp htokens with ⟨middle, hfront, hback⟩
      have hmiddle := termEnds_moreArguments hothers hback
      rcases reads_moreArguments hothers allowance hback hleft with ⟨last, hreads, hclosing⟩
      refine ⟨last, .repeatWhile_cons (opensWith_ofList_iff.mpr hspells.head_mark) ?_ ?_ hreads,
        hclosing⟩
      · exact (reads_operator rfl hcomma (hfront.significant hmiddle.1.significant)).bind
          (reads_termArgument hfirst allowance hfront hmiddle)
      · exact (spells_cons.mpr ⟨inner, hcomma, hfront⟩).length_lt

end

/-- What ends a literal is not read as the rest of an equation. -/
theorem misses_equation (allowance : Nat) (h : LiteralEnds left) (left' : Term) :
    Misses (equalitySign >>= fun s => termArgument allowance >>= fun right =>
      pure (Literal.equality left' s right)) left := by
  rcases h.2 with hnone | ⟨rest, rfl⟩
  · exact .bind (.labeled _ (misses_sign hnone))
  · -- The sign is the start of an arrow, and no term starts with the rest of it.
    have hsign : Reads (member Sign) ('=' :: '>' :: rest) .positive ('>' :: rest) :=
      reads_sign (spells_singleton.mpr ⟨['='], _, rfl, .sign .positive, .nil _⟩)
        (significant_cons (by decide) (by decide) (by decide))
    exact .then (hsign.labeled _) (.bind (misses_termArgument rfl (by decide) (by decide) _))

/-- Literals are read. -/
theorem reads_literal {tokens : List Token} {l : Literal} (h : IsLiteral tokens l)
    (allowance : Nat) (hspells : Spells tokens text left) (hleft : LiteralEnds left) :
    Reads (literal allowance) text l left := by
  cases h with
  | equality s hl hr =>
      rcases spells_append.mp hspells with ⟨m1, hfront, hothers⟩
      rcases spells_cons.mp hothers with ⟨m2, hsign, hback⟩
      have hm2 := hback.significant hleft.1.1.significant
      refine .orElse ((reads_termArgument hl allowance hfront hothers.termEnds_sign.1).bind ?_)
      refine ((reads_sign hsign hm2).labeled _).bind ?_
      exact (reads_termArgument hr allowance hback hleft.1).bind (.pure _ _)
  | @predicate token tokens name terms hname hterms =>
      rcases spells_cons.mp hspells with ⟨middle, htoken, harguments⟩
      have hreads := reads_arguments hterms allowance harguments hleft.1
      have hmiddle := stops_arguments hterms harguments hleft.1
      -- The same tokens are an application of a function.
      rcases exists_name? (W := DefinedFunction) hname with ⟨f, hf⟩
      have hterm := reads_termArgument (.bare (.function hf hterms)) allowance hspells hleft.1
      refine .orElse_of_misses (.then hterm (misses_equation allowance hleft _)) (.labeled _ ?_)
      exact ((reads_name _ hname htoken hmiddle.tokenEnds).labeled _).bind (hreads.bind (.pure _ _))

end Syntax

end Tptp
