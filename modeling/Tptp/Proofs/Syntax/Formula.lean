import Tptp.Proofs.Syntax.Term

/-!
# Reading Formulas

The productions of formulas read exactly what the grammar says, in every dialect.

Most of a unitary formula is told from its first character. The one case that is
not is an opening parenthesis: it may belong to a formula or to the first term of an
equation, and the literal is tried first. If the grammar means a formula, that
attempt has to fail. What stands between the parentheses may be read as a term all
the same; then it is a predicate without an equality sign behind it, and since no
equality sign follows the closing parenthesis either, nothing becomes an equation.

## Main definitions

* `Dialect.Lists`: The binders of a dialect are read exactly.
* `FormulaEnds`: What may follow a formula.

## Theorems

* `relates_formulaOf`: Nothing but formulas is read.
* `misses_literal_of_parens`: A formula in parentheses is not taken for a literal.
* `reads_formulaOf`: Every formula is read.
-/

namespace Tptp

namespace Syntax

open Reading Parser Grammar

variable {F B : Type} {text left : List Char}

/-- The binders of the dialect are those of the grammar, where a comma or a closing
    bracket follows. -/
structure Lists (dialect : Dialect F B) (binder : List Token → B → Prop) : Prop where
  sound : ∀ allowance, Relates (dialect.binder allowance) (Spelled binder)
  complete : ∀ {tokens b}, binder tokens b → ∀ (allowance : Nat) {text left : List Char},
    Spells tokens text left → (left.head? = some ',' ∨ left.head? = some ']') →
      Reads (dialect.binder allowance) text b left

/-- What may follow a formula. -/
def FormulaEnds (text : List Char) : Prop :=
  ∀ c ∈ text.head?, c = ')' ∨ c = ','

section

variable {dialect : Dialect F B} {binder : List Token → B → Prop}

theorem formulaEnds_of_closing (h : text.head? = some ')') : FormulaEnds text := by
  intro c hc
  rw [h, Option.mem_some_iff] at hc
  exact .inl hc.symm

theorem FormulaEnds.head?_ne_arrowHead (h : FormulaEnds text) : text.head? ≠ some '>' := by
  intro hhead
  rcases h _ hhead with hc | hc <;> exact absurd hc (by decide)

theorem FormulaEnds.literalEnds (h : FormulaEnds text) : LiteralEnds text := by
  have hall : ∀ c ∈ text.head?, c ∈ stoppers ∧ c ≠ '(' ∧ (c == '=' || c == '!') = false := by
    intro c hc
    rcases h c hc with rfl | rfl <;> decide
  refine ⟨⟨fun c hc => (hall c hc).1, fun hc => (hall _ hc).2.1 rfl⟩, .inl fun c hc => ?_⟩
  exact (hall c hc).2.2

/-- A connective in front of other tokens ends a literal. -/
theorem Spells.literalEnds_connective {c : Connective} {tokens : List Token}
    (h : Spells (.connective c :: tokens) text left) :
    LiteralEnds text ∧ text.head? ≠ some ')' := by
  have hclass : ∀ d ∈ ['&', '|', '<', '~'], d ∈ stoppers ∧ d ≠ '(' ∧
      (d == '=' || d == '!') = false ∧ d ≠ ')' := List.all_iff_forall_prop.mp (by decide)
  have hsign : ∀ {d rest}, d ∈ ['&', '|', '<', '~'] → text = d :: rest →
      LiteralEnds text ∧ text.head? ≠ some ')' := by
    rintro d rest hd rfl
    rcases hclass d hd with ⟨hstop, hopening, hno, hclosing⟩
    refine ⟨⟨termEnds_of_head rfl hstop hopening, .inl fun e he => ?_⟩, fun he => ?_⟩
    · exact Option.mem_some_iff.mp he ▸ hno
    · exact hclosing (Option.some.inj he)
  cases h with
  | cons hspelling _ _ =>
      cases hspelling
      cases c
      case implication =>
        exact ⟨⟨termEnds_of_head rfl (by decide) (by decide), .inr ⟨_, rfl⟩⟩,
          fun he => absurd (Option.some.inj he) (by decide)⟩
      all_goals exact hsign (by decide) rfl

theorem Spells.head_opens {token : Token} {tokens : List Token}
    (h : Spells (token :: tokens) text left) : ∃ c, text.head? = some c ∧ token.opens c = true := by
  rcases h.exists_cons with ⟨c, rest, rfl, hc⟩
  exact ⟨c, rfl, hc⟩

/-- The characters that tell what a unitary formula is. -/
def unitaryOpeners : List Char :=
  ['~', '!', '?', '#']

/-- No term starts like another unitary formula. -/
theorem head_argument {tokens : List Token} {t : Term} (h : IsArgument tokens t)
    {others : List Token} (hspells : Spells (tokens ++ others) text left) :
    ∀ c ∈ text.head?, c ∉ unitaryOpeners := by
  -- The first token decides.
  have hclass : ∀ {token : Token} {rest : List Token}, Spells (token :: rest) text left →
      (∀ c, token.opens c = true → c ∉ unitaryOpeners) →
        ∀ c ∈ text.head?, c ∉ unitaryOpeners := by
    intro token rest hspells htoken c hc
    rcases hspells.head_opens with ⟨d, hd, hopens⟩
    rw [hd, Option.mem_some_iff] at hc
    exact hc ▸ htoken d hopens
  have hletter : ∀ c : Char, Text.isWordChar c = true → c ∉ unitaryOpeners := by
    intro c hc hmem
    have hall : ∀ d ∈ unitaryOpeners, Text.isWordChar d = false :=
      List.all_iff_forall_prop.mp (by decide)
    rw [hall c hmem] at hc
    exact Bool.false_ne_true hc
  cases h with
  | parens => exact hclass hspells fun c hc => beq_iff_eq.mp hc ▸ by decide
  | bare h =>
      cases h with
      | var => exact hclass hspells fun c hc => hletter c (Text.isWordChar_of_isUpper hc)
      | distinct => exact hclass hspells fun c hc => beq_iff_eq.mp hc ▸ by decide
      | number =>
          refine hclass hspells fun c hc => ?_
          simp only [Token.opens, Bool.or_eq_true, beq_iff_eq, or_assoc] at hc
          rcases hc with hc | rfl | rfl
          · exact hletter c (Text.isWordChar_of_isDigit hc)
          · decide
          · decide
      | function hname =>
          refine hclass hspells fun c hc hmem => (opens_name hname hc).2.2.2 ?_
          have hsub : ∀ d ∈ unitaryOpeners, d ∈ otherOpeners :=
            List.all_iff_forall_prop.mp (by decide)
          exact hsub c hmem

/-- No literal starts like another unitary formula. -/
theorem head_literal {tokens : List Token} {l : Literal} (h : IsLiteral tokens l)
    (hspells : Spells tokens text left) : ∀ c ∈ text.head?, c ∉ unitaryOpeners := by
  cases h with
  | equality s hl _ => exact head_argument hl hspells
  | @predicate token tokens name terms hname hterms =>
      rcases exists_name? (W := DefinedFunction) hname with ⟨f, hf⟩
      have hterm := IsArgument.bare (.function hf hterms)
      rw [← List.append_nil (token :: tokens)] at hspells
      exact head_argument hterm hspells

/-- Parentheses around what is read as a term up to the closing one are read as a term,
    and around anything else they are not. -/
theorem termArgument_parens {allowance : Nat} {tokens : List Token}
    (hspells : Spells (.mark .opening :: (tokens ++ [.mark .closing])) text left)
    (hleft : Significant left)
    (h : ∀ {inner middle}, Spells tokens inner middle → middle.head? = some ')' →
      Misses (termArgument allowance) inner ∨ ∃ t last,
        Reads (termArgument allowance) inner t last ∧ (last = middle ∨ last.head? ≠ some ')')) :
    Misses (termArgument (allowance + 1)) text ∨
      ∃ t, Reads (termArgument (allowance + 1)) text t left := by
  rcases spells_cons.mp hspells with ⟨inner, hopening, htokens⟩
  rcases spells_append.mp htokens with ⟨middle, hinner, hclosing⟩
  have hmiddle := hclosing.significant hleft
  have hterm := (misses_term hspells.head_mark (by decide) allowance).misses
  have hopen : Reads (operator "(") text "(" inner :=
    reads_operator rfl hopening (hinner.significant hmiddle)
  rcases h hinner hclosing.head_mark with h | ⟨t, last, h, rfl | hlast⟩
  · exact .inl (misses_ifOpens hspells.head_mark
      (.orElse hterm (.labeled _ (.then hopen (.bind h)))))
  · refine .inr ⟨t, reads_ifOpens hspells.head_mark (.orElse_of_misses hterm (.labeled _ ?_))⟩
    exact hopen.bind (h.bind ((reads_operator rfl hclosing hleft).bind (.pure _ _)))
  · exact .inl (misses_ifOpens hspells.head_mark (.orElse hterm (.labeled _
      (.then hopen (.then h (.bind (misses_operator rfl hlast)))))))

mutual

/-- Where a unitary formula stands no term is read, or a term up to its end, or one
    that no parenthesis follows. -/
theorem termArgument_unitary : ∀ {tokens : List Token} {f : F}, IsUnitary dialect binder tokens f →
    ∀ (allowance : Nat) {text left : List Char}, Spells tokens text left → LiteralEnds left →
      Misses (termArgument allowance) text ∨ ∃ t last,
        Reads (termArgument allowance) text t last ∧ (last = left ∨ last.head? ≠ some ')')
  | _, _, .negated _, allowance, _, _, hspells, _ =>
    .inl (misses_termArgument hspells.head_mark (by decide) (by decide) allowance)
  | _, _, .quantified q _ _ _, allowance, text, _, hspells, _ => by
      rcases hspells.head_opens with ⟨c, hhead, hc⟩
      simp only [Token.opens, Bool.or_eq_true, beq_iff_eq] at hc
      rcases hc with rfl | rfl
      · exact .inl (misses_termArgument hhead (by decide) (by decide) allowance)
      · exact .inl (misses_termArgument hhead (by decide) (by decide) allowance)
  | _, _, .modal m _ _ _, allowance, _, _, hspells, _ => by
      rcases hspells.head_opens with ⟨c, hhead, hc⟩
      rw [beq_iff_eq.mp hc] at hhead
      exact .inl (misses_termArgument hhead (by decide) (by decide) allowance)
  | _, _, .literal hl, allowance, _, left, hspells, hleft => by
      cases hl with
      | equality s hl _ =>
          rcases spells_append.mp hspells with ⟨middle, hfront, hothers⟩
          rcases hothers.termEnds_sign with ⟨hends, hclosing⟩
          -- The left side is a term, and its end is not in front of a parenthesis.
          exact .inr ⟨_, middle, reads_termArgument hl allowance hfront hends, .inr hclosing⟩
      | predicate hname hterms =>
          -- A predicate with its arguments looks like a term.
          rcases exists_name? (W := DefinedFunction) hname with ⟨f, hf⟩
          exact .inr ⟨_, left,
            reads_termArgument (.bare (.function hf hterms)) allowance hspells hleft.1, .inl rfl⟩
  | _, _, .parens _, 0, _, _, _, _ => .inl (.abort trivial)
  | _, _, .parens hf, allowance + 1, _, left, hspells, hleft => by
      rcases termArgument_parens hspells hleft.1.1.significant fun hinner hclosing =>
        termArgument_formula hf allowance hinner (formulaEnds_of_closing hclosing) with h | ⟨t, h⟩
      · exact .inl h
      · exact .inr ⟨t, left, h, .inl rfl⟩

/-- The same where a formula stands. -/
theorem termArgument_formula : ∀ {tokens : List Token} {f : F}, IsFormula dialect binder tokens f →
    ∀ (allowance : Nat) {text left : List Char}, Spells tokens text left → FormulaEnds left →
      Misses (termArgument allowance) text ∨ ∃ t last,
        Reads (termArgument allowance) text t last ∧ (last = left ∨ last.head? ≠ some ')')
  | _, _, .unitary h, allowance, _, _, hspells, hleft =>
    termArgument_unitary h allowance hspells hleft.literalEnds
  | _, _, .connected c hf _, allowance, _, _, hspells, _ => by
      rcases spells_append.mp hspells with ⟨middle, hfront, hothers⟩
      rcases hothers.literalEnds_connective with ⟨hends, hclosing⟩
      rcases termArgument_unitary hf allowance hfront hends with h | ⟨t, last, h, hlast⟩
      · exact .inl h
      -- The term ends where the connective stands, or earlier.
      · refine .inr ⟨t, last, h, .inr ?_⟩
        rcases hlast with rfl | hlast
        · exact hclosing
        · exact hlast

end

/-- A formula in parentheses is not taken for a literal. -/
theorem misses_literal_of_parens {tokens : List Token} {f : F}
    (hf : IsFormula dialect binder tokens f)
    (hspells : Spells (.mark .opening :: (tokens ++ [.mark .closing])) text left)
    (hleft : LiteralEnds left) (allowance : Nat) : Misses (literal allowance) text := by
  refine .orElse ?_ (.labeled _ (.bind (.labeled _ (misses_name _ fun c hc => ?_))))
  · cases allowance with
    | zero => exact .bind (.abort trivial)
    | succ allowance =>
        rcases termArgument_parens hspells hleft.1.1.significant fun hinner hclosing =>
          termArgument_formula hf allowance hinner (formulaEnds_of_closing hclosing)
          with h | ⟨t, h⟩
        · exact .bind h
        -- The parentheses have been read as a term, but no equality sign follows.
        · exact .then h (misses_equation _ hleft t)
  · rw [hspells.head_mark, Option.mem_some_iff] at hc
    exact hc ▸ by decide

/-- The binders behind the first one are read. -/
theorem reads_moreBinders (hlists : Lists dialect binder) {tokens : List Token} {bound : List B}
    (h : AreBinders binder tokens bound) (allowance : Nat) :
    ∀ {text left : List Char}, Spells tokens text left → left.head? = some ']' →
      ∃ b others middle, bound = b :: others ∧ Reads (dialect.binder allowance) text b middle ∧
        middle.length ≤ text.length ∧ Significant text ∧
        Reads (many (operator "," *> dialect.binder allowance)) middle others left := by
  induction h with
  | one hb =>
      intro text left hspells hleft
      have hsignificant := (termEnds_of_head hleft (by decide) (by decide)).1.significant
      refine ⟨_, [], left, rfl, hlists.complete hb allowance hspells (.inr hleft),
        hspells.length_le, hspells.significant hsignificant, .many_nil (.bind ?_)⟩
      refine misses_operator (c := ',') rfl fun hcomma => ?_
      rw [hleft] at hcomma
      exact absurd (Option.some.inj hcomma) (by decide)
  | comma hb _ ih =>
      intro text left hspells hleft
      rcases spells_append.mp hspells with ⟨m1, hfront, hothers⟩
      rcases spells_cons.mp hothers with ⟨m2, hcomma, hback⟩
      rcases ih hback hleft with ⟨b, others, m3, rfl, hreads, hle, hsignificant, hmany⟩
      have hm1 := hothers.head_mark
      refine ⟨_, b :: others, m1, rfl, hlists.complete hb allowance hfront (.inl hm1),
        hfront.length_le, ?_, .many_cons ((reads_operator rfl hcomma hsignificant).bind hreads)
        ?_ hmany⟩
      · exact hfront.significant (termEnds_of_head hm1 (by decide) (by decide)).1.significant
      -- The comma has been taken.
      · exact Nat.lt_of_le_of_lt hle hcomma.length_lt

/-- The list of a quantifier is read. -/
theorem reads_bound (hlists : Lists dialect binder) {tokens : List Token} {bound : List B}
    (h : AreBinders binder tokens bound) (allowance : Nat)
    (hspells : Spells (.mark .openingBracket :: (tokens ++ [.mark .closingBracket])) text left)
    (hleft : Significant left) :
    Reads (bracketList1 (dialect.binder allowance)) text bound left := by
  rcases spells_cons.mp hspells with ⟨inner, hopening, htokens⟩
  rcases spells_append.mp htokens with ⟨last, hinner, hclosing⟩
  rcases reads_moreBinders hlists h allowance hinner hclosing.head_mark with
    ⟨b, others, middle, rfl, hreads, -, hsignificant, hmany⟩
  refine .labeled _ (.labeled _ ((reads_operator rfl hopening hsignificant).bind ?_))
  refine (hreads.bind (hmany.bind (.pure (b :: others) _))).bind ?_
  exact (reads_operator rfl hclosing hleft).bind (.pure _ _)

/-- A unitary formula with none of the other openers is a basic one. -/
theorem reads_basicFormula {allowance : Nat} {inner : Parser F} {f : F}
    (hhead : ∀ c ∈ text.head?, c ∉ unitaryOpeners)
    (h : Reads (basicFormula dialect allowance inner) text f left) :
    Reads (unitaryRule dialect allowance inner) text f left := by
  have hne : ∀ c ∈ unitaryOpeners, text.head? ≠ some c := fun c hc h => hhead c h hc
  refine .labeled _ (reads_ifOpens_of_ne (hne '~' (by decide)) (reads_ifOpens_of_ne
    (hne '!' (by decide)) (reads_ifOpens_of_ne (hne '?' (by decide)) ?_)))
  split
  · exact reads_ifOpens_of_ne (hne '#' (by decide)) h
  · exact h

/-- What ends a formula is no connective. -/
theorem misses_connection {unitary : Parser F} (h : FormulaEnds text) :
    Misses (connection unitary) text := by
  refine .bind (.labeled _ (misses_connective fun c hc => ?_))
  rcases h c hc with rfl | rfl <;> decide

/-- What has been checked is built. -/
theorem reads_build {α : Type} {built : Except Refusal α} {value : α} (h : built = .ok value)
    (text : List Char) : Reads (build built) text value text := by
  rw [h]
  exact .pure value text

mutual

/-- Unitary formulas are read. -/
theorem reads_unitary (hlists : Lists dialect binder) : ∀ {tokens : List Token} {f : F},
    IsUnitary dialect binder tokens f → ∀ (allowance : Nat) {text left : List Char},
      Spells tokens text left → LiteralEnds left → Reads (unitary dialect allowance) text f left
  | _, _, _, 0, _, _, _, _ => .abort trivial
  | _, _, .negated hf, allowance + 1, _, _, hspells, hleft => by
      rcases spells_cons.mp hspells with ⟨middle, htilde, hinner⟩
      refine .labeled _ (reads_ifOpens hspells.head_mark ?_)
      refine (reads_operator rfl htilde (hinner.significant hleft.1.1.significant)).bind ?_
      exact (reads_unitary hlists hf allowance hinner hleft).bind (.pure _ _)
  | _, _, @IsUnitary.quantified _ _ _ _ _ _ _ _ g q hbound hf hbuilt, allowance + 1, text, left,
    hspells, hleft => by
      rcases spells_cons.mp hspells with ⟨m1, hq, hothers⟩
      rcases spells_cons.mp hothers with ⟨m2, hopening, hfront⟩
      rcases spells_append.mp hfront with ⟨m3, hfront, hclose⟩
      rcases spells_cons.mp hclose with ⟨m4, hclosing, hback⟩
      rcases spells_cons.mp hback with ⟨m5, hcolon, hinner⟩
      have hm5 := hinner.significant hleft.1.1.significant
      have hm4 := hcolon.significant hm5
      have hlist := reads_bound hlists hbound allowance
        (spells_cons.mpr ⟨m2, hopening, spells_append.mpr ⟨m3, hfront, hclosing⟩⟩) hm4
      have hm1 := hothers.significant hleft.1.1.significant
      have hquantification : Reads (quantification dialect allowance (unitary dialect allowance))
          text g left := by
        refine ((reads_quantifier hq hm1).labeled _).bind (hlist.bind ?_)
        refine (reads_operator rfl hcolon hm5).bind ?_
        exact (reads_unitary hlists hf allowance hinner hleft).bind (reads_build hbuilt _)
      refine .labeled _ ?_
      -- The two quantifiers have a branch of their own each.
      rcases hspells.head_opens with ⟨c, hhead, hc⟩
      simp only [Token.opens, Bool.or_eq_true, beq_iff_eq] at hc
      rcases hc with rfl | rfl
      · refine reads_ifOpens_of_ne ?_ (reads_ifOpens hhead hquantification)
        exact fun h => absurd (Option.some.inj (hhead.symm.trans h)) (by decide)
      · refine reads_ifOpens_of_ne ?_ (reads_ifOpens_of_ne ?_ (reads_ifOpens hhead hquantification))
        · exact fun h => absurd (Option.some.inj (hhead.symm.trans h)) (by decide)
        · exact fun h => absurd (Option.some.inj (hhead.symm.trans h)) (by decide)
  | _, _, .modal m hmodal hf hbuilt, allowance + 1, _, _, hspells, hleft => by
      rcases spells_cons.mp hspells with ⟨m1, hm, hothers⟩
      rcases spells_cons.mp hothers with ⟨m2, hcolon, hinner⟩
      have hm2 := hinner.significant hleft.1.1.significant
      have hends := termEnds_of_head hothers.head_mark (by decide) (by decide)
      rcases hspells.head_opens with ⟨c, hhead, hc⟩
      rw [beq_iff_eq.mp hc] at hhead
      have hne : ∀ d, d ≠ '#' → _ ≠ some d := fun d hd h =>
        hd (Option.some.inj (h.symm.trans hhead))
      refine .labeled _ (reads_ifOpens_of_ne (hne '~' (by decide)) (reads_ifOpens_of_ne
        (hne '!' (by decide)) (reads_ifOpens_of_ne (hne '?' (by decide)) ?_)))
      rw [hmodal]
      refine reads_ifOpens hhead (((reads_modality hm hends.1).labeled _).bind ?_)
      refine (reads_operator rfl hcolon hm2).bind ?_
      rw [← hbuilt]
      exact (reads_unitary hlists hf allowance hinner hleft).bind (.pure _ _)
  | _, _, .literal hl, allowance + 1, text, _, hspells, hleft => by
      have hreads := (reads_literal hl allowance hspells hleft).map dialect.atomic
      exact reads_basicFormula (head_literal hl hspells) (reads_orParens hreads)
  | _, _, .parens hf, allowance + 1, _, left, hspells, hleft => by
      refine reads_basicFormula (fun c hc => ?_) (reads_orParens_of_misses hspells
        hleft.1.1.significant (.map (misses_literal_of_parens hf hspells hleft allowance))
        fun hinner hclosing => ?_)
      · rw [hspells.head_mark, Option.mem_some_iff] at hc
        exact hc ▸ by decide
      · rcases reads_formula hlists hf allowance hinner (formulaEnds_of_closing hclosing) with
          ⟨first, others, middle, rfl, hfirst, -, hothers⟩
        exact hfirst.bind (hothers.bind (.pure _ _))

/-- The formulas of a chain are read. -/
theorem reads_formula (hlists : Lists dialect binder) : ∀ {tokens : List Token} {f : F},
    IsFormula dialect binder tokens f → ∀ (allowance : Nat) {text left : List Char},
      Spells tokens text left → FormulaEnds left →
        ∃ first others middle, f = dialect.groupRight first others ∧
          Reads (unitary dialect allowance) text first middle ∧ middle.length ≤ text.length ∧
          Reads (many (connection (unitary dialect allowance))) middle others left
  | _, _, .unitary hf, allowance, _, left, hspells, hleft =>
    ⟨_, [], left, rfl, reads_unitary hlists hf allowance hspells hleft.literalEnds,
      hspells.length_le, .many_nil (misses_connection hleft)⟩
  | _, _, .connected c hf hg, allowance, _, _, hspells, hleft => by
      rcases spells_append.mp hspells with ⟨m1, hfront, hothers⟩
      rcases spells_cons.mp hothers with ⟨m2, hc, hback⟩
      rcases reads_formula hlists hg allowance hback hleft with
        ⟨next, others, m3, rfl, hnext, hle, hmany⟩
      have hm2 := hback.significant hleft.literalEnds.1.1.significant
      have harrow := hback.head?_ne_arrowHead hleft.head?_ne_arrowHead
      have hconnection : Reads (connection (unitary dialect allowance)) m1 (c, next) m3 :=
        ((reads_connective hc hm2 harrow).labeled _).bind (hnext.bind (.pure (c, next) _))
      refine ⟨_, (c, next) :: others, m1, rfl,
        reads_unitary hlists hf allowance hfront hothers.literalEnds_connective.1,
        hfront.length_le, .many_cons hconnection ?_ hmany⟩
      -- The connective has been taken.
      exact Nat.lt_of_le_of_lt hle hc.length_lt

end

end

end Syntax

end Tptp
