import Tptp.Proofs.Composed.Grammar

/-!
# The Allowance for Nesting

With less of the allowance a parser gives up earlier, and that is all.

What stands inside of a larger text is read with the part of the allowance that is left
there. It may be too little. But if it is not, then the parser comes to the same as with
more: no alternative is taken or left because of it.

## Main definitions

* `Curtails`: A parser that gives up for nesting, or else does what another one does.

## Theorems

* `Curtails.bind`, `Curtails.orElse`, `Curtails.many`: By combinators.
* `curtails_term`, `curtails_literal`, `curtails_clause`: Terms and clauses.
* `curtails_formula`: Formulas of all languages.
-/

namespace Tptp

namespace Reading

variable {α β : Type}

/-- The first parser gives up for nesting, or else it does what the second one does. -/
def Curtails (p q : Parser α) : Prop :=
  ∀ rest, (p rest).outcome = .aborted .tooDeep ∨ (p rest).outcome = (q rest).outcome

namespace Curtails

variable {p p' q q' : Parser α}

theorem refl (p : Parser α) : Curtails p p :=
  fun _ => .inr rfl

theorem abort (q : Parser α) : Curtails (Parser.abort .tooDeep) q :=
  fun _ => .inl rfl

theorem bind {next next' : α → Parser β} (h : Curtails p q)
    (hnext : ∀ a, Curtails (next a) (next' a)) : Curtails (p >>= next) (q >>= next') := by
  intro rest
  rw [Parser.outcome_bind, Parser.outcome_bind]
  rcases h rest with h | h
  · exact .inl (by rw [h])
  · rw [h]
    rcases (q rest).outcome with ⟨a, middle⟩ | _ | _
    · exact hnext a middle
    · exact .inr rfl
    · exact .inr rfl

theorem map (f : α → β) (h : Curtails p q) : Curtails (f <$> p) (f <$> q) :=
  h.bind fun _ => .refl _

theorem labeled (label : String) (h : Curtails p q) :
    Curtails (Parser.labeled label p) (Parser.labeled label q) := by
  intro rest
  rw [Parser.outcome_labeled, Parser.outcome_labeled]
  rcases h rest with h | h
  · exact .inl (by rw [h])
  · exact .inr (by rw [h])

theorem orElse (h : Curtails p q) (h' : Curtails p' q') : Curtails (p <|> p') (q <|> q') := by
  intro rest
  rw [Parser.outcome_orElse, Parser.outcome_orElse]
  rcases h rest with h | h
  · exact .inl (by rw [h])
  · rw [h]
    rcases (q rest).outcome with _ | _ | _
    · exact .inr rfl
    · exact h' rest
    · exact .inr rfl

theorem ifOpens (c : Char) (h : Curtails p q) (h' : Curtails p' q') :
    Curtails (Parser.ifOpens c p p') (Parser.ifOpens c q q') := by
  intro rest
  rw [Parser.outcome_ifOpens, Parser.outcome_ifOpens]
  split
  · exact h rest
  · exact h' rest

/-- Behind an item the loops go on alike, or the first one gives up there. -/
theorem more {loop loop' : Parser (List α)} (rest after : Rest) (value : α)
    (hloop : after.size < rest.size → (loop after).outcome = .aborted .tooDeep ∨
      (loop after).outcome = (loop' after).outcome) :
    (if after.size < rest.size then (loop after).outcome.map (value :: ·)
      else .done [value] after) = .aborted .tooDeep ∨
    (if after.size < rest.size then (loop after).outcome.map (value :: ·)
      else .done [value] after) =
      if after.size < rest.size then (loop' after).outcome.map (value :: ·)
      else .done [value] after := by
  by_cases hlt : after.size < rest.size
  · rw [if_pos hlt, if_pos hlt]
    rcases hloop hlt with h | h
    · exact .inl (by rw [h]; rfl)
    · exact .inr (by rw [h])
  · rw [if_neg hlt, if_neg hlt]
    exact .inr rfl

theorem many (h : Curtails p q) : Curtails (Parser.many p) (Parser.many q) := by
  intro rest
  -- The induction is on the characters that are left, since the loop ends with an item that
  -- takes none.
  induction hsize : rest.size using Nat.strongRecOn generalizing rest with
  | _ size ih =>
      rw [Parser.outcome_many, Parser.outcome_many]
      rcases h rest with h | h
      · exact .inl (by rw [h])
      · rw [h]
        rcases (q rest).outcome with ⟨value, after⟩ | _ | _
        · exact more rest after value fun hlt => ih _ (hsize ▸ hlt) after rfl
        · exact .inr rfl
        · exact .inr rfl

theorem repeatWhile (inSight : Rest → Bool) (h : Curtails p q) :
    Curtails (Parser.repeatWhile inSight p) (Parser.repeatWhile inSight q) := by
  intro rest
  induction hsize : rest.size using Nat.strongRecOn generalizing rest with
  | _ size ih =>
      rw [Parser.outcome_repeatWhile, Parser.outcome_repeatWhile]
      split
      · rcases h rest with h | h
        · exact .inl (by rw [h])
        · rw [h]
          rcases (q rest).outcome with ⟨value, after⟩ | _ | _
          · exact more rest after value fun hlt => ih _ (hsize ▸ hlt) after rfl
          · exact .inr rfl
          · exact .inr rfl
      · exact .inr rfl

theorem optional (h : Curtails p q) : Curtails (Parser.optional p) (Parser.optional q) :=
  (h.map _).orElse (.refl _)

theorem parens (h : Curtails p q) : Curtails (Parser.parens p) (Parser.parens q) :=
  .labeled _ (.bind (.refl _) fun _ => h.bind fun _ => .refl _)

theorem orParens (h : Curtails p q) (h' : Curtails p' q') :
    Curtails (Parser.orParens p p') (Parser.orParens q q') :=
  .ifOpens _ (h.orElse h'.parens) h

/-- A pair of parentheses takes one unit of either allowance. -/
theorem optionalParens {p : Nat → Parser α} (h : ∀ {m n}, m ≤ n → Curtails (p m) (p n))
    {m n : Nat} (hmn : m ≤ n) :
    Curtails (Parser.optionalParens p m) (Parser.optionalParens p n) := by
  induction m generalizing n with
  | zero => exact .abort _
  | succ m ih =>
      rcases n with _ | n
      · exact absurd hmn (Nat.not_succ_le_zero m)
      · have hmn := Nat.le_of_succ_le_succ hmn
        exact (h hmn).orParens (ih hmn)

theorem bracketList1 (h : Curtails p q) :
    Curtails (Parser.bracketList1 p) (Parser.bracketList1 q) := by
  have hmore : Curtails (Parser.operator "," *> p) (Parser.operator "," *> q) :=
    .bind (.refl _) fun _ => h
  have hlist : Curtails (Parser.sepBy1 p (Parser.operator ","))
      (Parser.sepBy1 q (Parser.operator ",")) := h.bind fun _ => hmore.many.bind fun _ => .refl _
  exact .labeled _ (.labeled _ (.bind (.refl _) fun _ => hlist.bind fun _ => .refl _))

theorem arguments (h : Curtails p q) : Curtails (Parser.arguments p) (Parser.arguments q) := by
  have hmore : Curtails (Parser.comma p) (Parser.comma q) := .bind (.refl _) fun _ => h
  exact .ifOpens _ (.bind (.refl _) fun _ => h.bind fun _ => (hmore.repeatWhile _).bind fun _ =>
    .refl _) (.refl _)

/-- What the parser with less of the allowance is done with is right. -/
theorem reads (h : Curtails p q) {text left : List Char} {value : α}
    (hdone : (q (.ofList text)).outcome = .done value (.ofList left)) :
    ReadsUnless (· = .tooDeep) p text value left := by
  rcases h (.ofList text) with h | h
  · exact .inr ⟨_, rfl, h⟩
  · exact .inl (h.trans hdone)

end Curtails

end Reading

namespace Grammar

open Reading Parser

theorem curtails_termRule {p q : Parser Term} (h : Curtails p q) :
    Curtails (termRule p) (termRule q) := by
  have hfunction : Curtails (functionTerm p) (functionTerm q) :=
    .bind (.refl _) fun _ => h.arguments.bind fun _ => .refl _
  have hby : ∀ head, Curtails (termBy p head) (termBy q head) := by
    rintro (_ | c)
    · exact hfunction
    · -- Only applications have parts that are nested.
      simp only [termBy]
      split
      · exact .refl _
      · split
        · exact .refl _
        · split
          · exact .refl _
          · exact hfunction
  rw [termRule_eq, termRule_eq]
  exact .labeled _ fun rest => hby rest.chars.head? rest

theorem curtails_term_and_argument {m n : Nat} (h : m ≤ n) :
    Curtails (term m) (term n) ∧ Curtails (termArgument m) (termArgument n) := by
  induction m generalizing n with
  | zero => exact ⟨.abort _, .abort _⟩
  | succ m ih =>
      rcases n with _ | n
      · exact absurd h (Nat.not_succ_le_zero m)
      · have ih := ih (Nat.le_of_succ_le_succ h)
        exact ⟨curtails_termRule ih.2, ih.1.orParens ih.2⟩

theorem curtails_term {m n : Nat} (h : m ≤ n) : Curtails (term m) (term n) :=
  (curtails_term_and_argument h).1

theorem curtails_termArgument {m n : Nat} (h : m ≤ n) :
    Curtails (termArgument m) (termArgument n) :=
  (curtails_term_and_argument h).2

theorem curtails_literal {m n : Nat} (h : m ≤ n) : Curtails (literal m) (literal n) := by
  have hterm := curtails_termArgument h
  refine .orElse (hterm.bind fun _ => .bind (.refl _) fun _ => hterm.bind fun _ => .refl _)
    (.labeled _ ?_)
  exact .bind (.refl _) fun _ => hterm.arguments.bind fun _ => .refl _

theorem curtails_unitClause {m n : Nat} (h : m ≤ n) : Curtails (unitClause m) (unitClause n) := by
  refine .map _ (.ifOpens _ ?_ ((curtails_literal h).bind fun _ => .refl _))
  exact .bind (.refl _) fun _ => (Curtails.optionalParens curtails_literal h).bind fun _ => .refl _

theorem curtails_disjunction {p q : Parser Clause} (h : Curtails p q) :
    Curtails (disjunction p) (disjunction q) := by
  have hmore : Curtails (operator "|" >>= fun _ => p) (operator "|" >>= fun _ => q) :=
    .bind (.refl _) fun _ => h
  exact h.bind fun _ => (hmore.repeatWhile _).bind fun _ => .refl _

theorem curtails_clause {m n : Nat} (h : m ≤ n) : Curtails (clause m) (clause n) := by
  refine curtails_disjunction ?_
  induction m generalizing n with
  | zero => exact .abort _
  | succ m ih =>
      rcases n with _ | n
      · exact absurd h (Nat.not_succ_le_zero m)
      · have h := Nat.le_of_succ_le_succ h
        have hunit := curtails_unitClause h
        exact .ifOpens _ (hunit.orElse (curtails_disjunction (ih h)).parens) (hunit.labeled _)

theorem curtails_polySort {m n : Nat} (h : m ≤ n) : Curtails (polySort m) (polySort n) := by
  have hboth : Curtails (polySort m) (polySort n) ∧
      Curtails (polySortArgument m) (polySortArgument n) := by
    induction m generalizing n with
    | zero => exact ⟨.abort _, .abort _⟩
    | succ m ih =>
        rcases n with _ | n
        · exact absurd h (Nat.not_succ_le_zero m)
        · have ih := ih (Nat.le_of_succ_le_succ h)
          refine ⟨.labeled _ (.orElse (.refl _) ?_), ih.1.orParens ih.2⟩
          exact .bind (.refl _) fun _ => ih.2.arguments.bind fun _ => .refl _
  exact hboth.1

section

variable {F B : Type} {dialect : Dialect F B}

theorem curtails_chain {p q : Parser F} (h : Curtails p q) :
    Curtails (chain dialect p) (chain dialect q) := by
  have hconnection : Curtails (connection p) (connection q) :=
    .bind (.refl _) fun _ => h.bind fun _ => .refl _
  exact h.bind fun _ => hconnection.many.bind fun _ => .refl _

theorem curtails_unitaryRule {m n : Nat} (h : m ≤ n) {p q : Parser F}
    (hbinder : Curtails (dialect.binder m) (dialect.binder n)) (hinner : Curtails p q) :
    Curtails (unitaryRule dialect m p) (unitaryRule dialect n q) := by
  have hnegation : Curtails (negation dialect p) (negation dialect q) :=
    .bind (.refl _) fun _ => hinner.bind fun _ => .refl _
  have hquantification : Curtails (quantification dialect m p) (quantification dialect n q) :=
    .bind (.refl _) fun _ => hbinder.bracketList1.bind fun _ => .bind (.refl _) fun _ =>
      hinner.bind fun _ => .refl _
  have hbasic : Curtails (basicFormula dialect m p) (basicFormula dialect n q) :=
    ((curtails_literal h).map _).orParens (curtails_chain hinner)
  refine .labeled _ (.ifOpens _ hnegation (.ifOpens _ hquantification
    (.ifOpens _ hquantification ?_)))
  split
  · exact .ifOpens _ (.bind (.refl _) fun _ => .bind (.refl _) fun _ => hinner.bind fun _ =>
      .refl _) hbasic
  · exact hbasic

theorem curtails_formulaOf
    (hbinder : ∀ {m n}, m ≤ n → Curtails (dialect.binder m) (dialect.binder n)) {m n : Nat}
    (h : m ≤ n) : Curtails (formulaOf dialect m) (formulaOf dialect n) := by
  refine curtails_chain ?_
  induction m generalizing n with
  | zero => exact .abort _
  | succ m ih =>
      rcases n with _ | n
      · exact absurd h (Nat.not_succ_le_zero m)
      · have h := Nat.le_of_succ_le_succ h
        exact curtails_unitaryRule h (hbinder h) (ih h)

end

theorem curtails_polyRange {m n : Nat} (h : m ≤ n) : Curtails (polyRange m) (polyRange n) :=
  .orElse (.refl _) ((curtails_polySort h).map _)

theorem curtails_sortedNote {α : Type} {sort : Nat → Parser α}
    (hsort : ∀ {m n}, m ≤ n → Curtails (sort m) (sort n)) {m n : Nat} (h : m ≤ n) :
    Curtails (sortedNote sort m) (sortedNote sort n) := by
  have hgiven : Curtails (givenSort sort m) (givenSort sort n) :=
    .bind (.refl _) fun _ => .optionalParens hsort h
  exact .labeled _ (hgiven.optional.map _)

/-- With less of the allowance formulas of all languages are read alike, or given up. -/
theorem curtails_formula (language : Language) {m n : Nat} (h : m ≤ n) :
    Curtails (formula language m) (formula language n) := by
  cases language with
  | cnf => exact .labeled _ ((curtails_clause h).map _)
  | fof => exact .labeled _ (.map _ (.labeled _ (curtails_formulaOf (fun _ => .refl _) h)))
  | tff =>
      refine .labeled _ (.map _ (.labeled _ (curtails_formulaOf (fun hmn => ?_) h)))
      exact .bind (.refl _) fun _ => (curtails_sortedNote curtails_polyRange hmn).bind fun _ =>
        .refl _
  | qmf => exact .labeled _ (.map _ (curtails_formulaOf (fun _ => .refl _) h))

end Grammar

end Tptp
