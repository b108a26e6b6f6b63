import Tptp.Proofs.Agreement.Basic
import Tptp.Proofs.Syntax.Term

/-!
# Dialects in Step

When the formulas of one dialect are also those of another.

All formulas share one grammar, and a dialect says what is particular to it. If the
lists of the quantifiers are in step, and corresponding formulas are put together
from corresponding parts, then so are the formulas. The grammar is compared with
itself there, and the places at which it goes back are the same in both runs: the
literal that is tried behind a parenthesis is read by one parser.

The operators of the modal dialect stand at a character that opens no literal. So a
dialect without them reads nothing there, and a formula with one of them need not
correspond to anything.

## Main definitions

* `Transports`: Corresponding formulas of two dialects.

## Theorems

* `Transports.groupRight`: Chains correspond part by part.
* `Transports.unitary`: Unitary formulas are in step, wherever they end.
* `Transports.formulaOf`: Formulas are in step where no connective follows.
-/

namespace Tptp

namespace Syntax

open Reading Parser Grammar

/-- The formulas of two dialects correspond by a relation, if their parts do and the
    parsers of what quantifiers list are in step. -/
structure Transports {F B G C : Type} (d : Dialect F B) (d' : Dialect G C) (R : F → G → Prop)
    (S : B → C → Prop) : Prop where
  binder : ∀ allowance, Carries Carries.ListGoesOn S (d.binder allowance) (d'.binder allowance)
  atomic : ∀ {l : Literal} {h : G}, R (d.atomic l) h → h = d'.atomic l
  negated : ∀ {f : F} {h : G}, R (d.negated f) h → ∃ g, R f g ∧ h = d'.negated g
  connected : ∀ {f f' : F} {c : Connective} {h : G}, R (d.connected f c f') h →
    ∃ g g', R f g ∧ R f' g' ∧ h = d'.connected g c g'
  quantified : ∀ {q : Quantifier} {bound : List B} {f k : F} {h : G},
    d.quantified q bound f = .ok k → R k h →
      ∃ bound' g, List.Forall₂ S bound bound' ∧ R f g ∧ d'.quantified q bound' g = .ok h
  modal : ∀ {apply : Modality → F → F}, d.modal = some apply → ∀ (m : Modality) (f : F) (h : G),
    ¬ R (apply m f) h

/-- Any place. -/
abbrev Anywhere (_ : Rest) : Prop :=
  True

/-- No connective stands at a place. -/
abbrev ChainEnds (rest : Rest) : Prop :=
  Fails (member Connective) rest

section

variable {rest after : Rest}

/-- No member of a vocabulary is taken where none stands. -/
theorem fails_member {V : Type} [Vocabulary V]
    (h : ∀ v : V, ¬ (Vocabulary.canonical v).toList <+: rest.chars) : Fails (member V) rest := by
  have hnamed : Fails (named V) rest := by
    rw [Fails, named]
    split
    · next name v hfind =>
        -- The name that is found would stand at the place.
        have hname := Vocabulary.mem_nameTable.mp (List.mem_of_find?_eq_some hfind)
        have hword := List.find?_some hfind
        change rest.hasWord name.toList = true at hword
        rw [Rest.hasWord, Rest.startsWith, Bool.and_eq_true, Bool.and_eq_true,
          List.isPrefixOf_iff_prefix, ← hname] at hword
        exact absurd hword.1.2 (h v)
    · exact ⟨_, rfl⟩
  exact hnamed.bind

/-- A chain ends where no character of a connective follows. -/
theorem chainEnds_of_head (h : ∀ c ∈ rest.chars.head?,
    (c == '&' || c == '|' || c == '=' || c == '<' || c == '~') = false) : ChainEnds rest := by
  refine fails_member fun v hprefix => ?_
  rcases (Spelling.connective v).exists_cons with ⟨c, others, hv, hc⟩
  rcases hprefix with ⟨tail, htail⟩
  have hnot := h c (by rw [← htail, hv]; rfl)
  exact Bool.false_ne_true (hnot.symm.trans hc)

/-- A chain ends in front of a closing parenthesis. -/
theorem chainEnds_of_closing (h : rest.opensWith ')' = true) : ChainEnds rest := by
  refine chainEnds_of_head fun c hc => ?_
  rw [Rest.opensWith, decide_eq_true_eq] at h
  rw [h, Option.mem_some_iff] at hc
  exact hc ▸ by decide

/-- A parser that misses does not match. -/
theorem not_done_of_misses {α : Type} {p : Parser α} {text : List Char} (h : Misses p text)
    {value : α} : (p (.ofList text)).outcome ≠ .done value after := by
  rcases h with ⟨_, h⟩ | ⟨_, -, h⟩
  · rw [h]
    simp only [ne_eq, reduceCtorEq, not_false_eq_true]
  · rw [h]
    simp only [ne_eq, reduceCtorEq, not_false_eq_true]

/-- No literal starts as a modal operator does. -/
theorem misses_literal_of_hash (text : List Char) (allowance : Nat) :
    Misses (literal allowance) ('#' :: text) := by
  refine .orElse (.bind (misses_termArgument rfl (by decide) (by decide) allowance))
    (.labeled _ (.bind (.labeled _ (misses_name _ fun c hc => ?_))))
  rw [List.head?_cons, Option.mem_some_iff] at hc
  exact hc ▸ by decide

end

section

variable {F B G C : Type} {d : Dialect F B} {d' : Dialect G C} {R : F → G → Prop}
  {S : B → C → Prop} {p : Parser F} {p' : Parser G}

/-- No formula without modal operators starts as a modal operator does. -/
theorem basicFormula_ne_done {rest after : Rest} (h : rest.opensWith '#' = true) {allowance : Nat}
    {f : F} : (basicFormula d allowance p rest).outcome ≠ .done f after := by
  have hnot : rest.opensWith '(' = false := opensWith_eq_false h (by decide)
  rw [basicFormula, orParens, outcome_ifOpens, hnot, Rest.eq_ofList h]
  intro hdone
  rcases map_done hdone with ⟨l, hl, -⟩
  rcases List.head?_eq_some_iff.mp (of_decide_eq_true h) with ⟨text, htext⟩
  rw [htext] at hl
  exact not_done_of_misses (misses_literal_of_hash text allowance) hl

namespace Transports

/-- What corresponds to a chain is a chain of what corresponds to its parts. -/
theorem groupRight (h : Transports d d' R S) {first : F} {others : List (Connective × F)} {g : G}
    (hr : R (d.groupRight first others) g) :
    ∃ first' others', R first first' ∧
      List.Forall₂ (fun a b => a.1 = b.1 ∧ R a.2 b.2) others others' ∧
      g = d'.groupRight first' others' := by
  -- Chains are nested to the right, so the induction is on what follows the first part.
  induction others generalizing first g with
  | nil => exact ⟨g, [], hr, .nil, rfl⟩
  | cons next others ih =>
      rcases h.connected hr with ⟨first', g', hfirst, hg, rfl⟩
      rcases ih hg with ⟨next', others', hnext, hothers, rfl⟩
      exact ⟨first', (next.1, next') :: others', hfirst, .cons ⟨rfl, hnext⟩ hothers, rfl⟩

/-- Chains are in step if their parts are, in front of a place where they end. -/
theorem chain (h : Transports d d' R S) (hp : Carries Anywhere R p p') :
    Carries ChainEnds R (Grammar.chain d p) (Grammar.chain d' p') := by
  have hconnection : Carries Anywhere (fun a b => a.1 = b.1 ∧ R a.2 b.2) (connection p)
      (connection p') := by
    constructor
    rintro rest after a ⟨c, g⟩ hdone - ⟨hc, hr⟩
    rcases bind_done hdone with ⟨_, middle, hconnective, hdone⟩
    rcases bind_done hdone with ⟨f, _, hf, hpure⟩
    rw [outcome_pure, Outcome.done.injEq] at hpure
    rcases hpure with ⟨rfl, rfl⟩
    rcases hc
    exact done_bind hconnective (done_bind (hp.carry hf trivial hr) rfl)
  -- Behind a part anything may stand. It is the chain that has to end.
  have hmany := hconnection.many (E := ChainEnds) (fun _ => trivial) (fun _ => trivial)
    fun hend => (hend.labeled "connective").bind
  constructor
  intro rest after f g hdone hafter hr
  rcases bind_done hdone with ⟨first, middle, hfirst, hdone⟩
  rcases bind_done hdone with ⟨others, _, hothers, hpure⟩
  rw [outcome_pure, Outcome.done.injEq] at hpure
  rcases hpure with ⟨rfl, rfl⟩
  rcases h.groupRight hr with ⟨first', others', hrfirst, hrothers, rfl⟩
  exact done_bind (hp.carry hfirst trivial hrfirst)
    (done_bind (hmany.carry hothers hafter hrothers) rfl)

theorem negation (h : Transports d d' R S) (hp : Carries Anywhere R p p') :
    Carries Anywhere R (Grammar.negation d p) (Grammar.negation d' p') := by
  constructor
  intro rest after f g hdone _ hr
  rcases bind_done hdone with ⟨_, middle, hsign, hdone⟩
  rcases bind_done hdone with ⟨inner, _, hinner, hpure⟩
  rw [outcome_pure, Outcome.done.injEq] at hpure
  rcases hpure with ⟨rfl, rfl⟩
  rcases h.negated hr with ⟨inner', hrinner, rfl⟩
  exact done_bind hsign (done_bind (hp.carry hinner trivial hrinner) rfl)

theorem quantification (h : Transports d d' R S) (hp : Carries Anywhere R p p')
    (allowance : Nat) :
    Carries Anywhere R (Grammar.quantification d allowance p)
      (Grammar.quantification d' allowance p') := by
  constructor
  intro rest after f g hdone _ hr
  rcases bind_done hdone with ⟨q, m1, hquantifier, hdone⟩
  rcases bind_done hdone with ⟨bound, m2, hbound, hdone⟩
  rcases bind_done hdone with ⟨_, m3, hcolon, hdone⟩
  rcases bind_done hdone with ⟨inner, m4, hinner, hbuild⟩
  -- What is quantified has been accepted, and then the counterpart is, too.
  rcases hquantified : d.quantified q bound inner with _ | k
  · rw [hquantified] at hbuild
    exact absurd hbuild (by simp only [build, outcome_abort, reduceCtorEq, not_false_eq_true])
  · rw [hquantified, build, outcome_pure, Outcome.done.injEq] at hbuild
    rcases hbuild with ⟨rfl, rfl⟩
    rcases h.quantified hquantified hr with ⟨bound', inner', hrbound, hrinner, hquantified'⟩
    have hlist : Carries Anywhere (List.Forall₂ S) _ _ := (h.binder allowance).bracketList1
    have hbuild : (build (d'.quantified q bound' inner') m4).outcome = .done g m4 := by
      rw [hquantified']
      rfl
    exact done_bind hquantifier (done_bind (hlist.carry hbound trivial hrbound)
      (done_bind hcolon (done_bind (hp.carry hinner trivial hrinner) hbuild)))

/-- Literals are read by one parser, so behind a parenthesis both runs take the same
    for one. -/
theorem basicFormula (h : Transports d d' R S) (hp : Carries Anywhere R p p') (allowance : Nat) :
    Carries Anywhere R (Grammar.basicFormula d allowance p)
      (Grammar.basicFormula d' allowance p') := by
  have hliteral : Carries Anywhere R (d.atomic <$> literal allowance)
      (d'.atomic <$> literal allowance) := by
    constructor
    intro rest after f g hdone _ hr
    rcases map_done hdone with ⟨l, hl, rfl⟩
    rw [h.atomic hr]
    exact done_map _ hl
  exact hliteral.orParens ((h.chain hp).mono chainEnds_of_closing) fun _ hfails => hfails.of_map.map

/-- What stands at no negation and no quantifier. -/
theorem otherFormula (h : Transports d d' R S) (hp : Carries Anywhere R p p') (allowance : Nat) :
    Carries Anywhere R
      (match d.modal with
        | some apply => ifOpens '#' (modalization apply p) (Grammar.basicFormula d allowance p)
        | none => Grammar.basicFormula d allowance p)
      (match d'.modal with
        | some apply => ifOpens '#' (modalization apply p') (Grammar.basicFormula d' allowance p')
        | none => Grammar.basicFormula d' allowance p') := by
  have hbasic := h.basicFormula hp allowance
  constructor
  intro rest after f g hdone _ hr
  by_cases hhash : rest.opensWith '#' = true
  · -- Only a modal operator can be read here, and no formula with one has a counterpart.
    exfalso
    rcases hmodal : d.modal with _ | apply
    · rw [hmodal] at hdone
      exact basicFormula_ne_done hhash hdone
    · rw [hmodal] at hdone
      simp only at hdone
      rw [outcome_ifOpens, if_pos hhash] at hdone
      rcases bind_done hdone with ⟨m, _, -, hdone⟩
      rcases bind_done hdone with ⟨_, _, -, hdone⟩
      rcases bind_done hdone with ⟨inner, _, -, hpure⟩
      rw [outcome_pure, Outcome.done.injEq] at hpure
      exact h.modal hmodal m inner g (hpure.1 ▸ hr)
  · have hdone : (Grammar.basicFormula d allowance p rest).outcome = .done f after := by
      rcases hmodal : d.modal with _ | apply
      · rw [hmodal] at hdone
        exact hdone
      · rw [hmodal] at hdone
        simp only at hdone
        rw [outcome_ifOpens, if_neg hhash] at hdone
        exact hdone
    rcases d'.modal with _ | apply
    · exact hbasic.carry hdone trivial hr
    · simp only
      rw [outcome_ifOpens, if_neg hhash]
      exact hbasic.carry hdone trivial hr

/-- Unitary formulas are in step: wherever one ends in the one dialect, the
    corresponding one ends in the other. -/
theorem unitary (h : Transports d d' R S) (allowance : Nat) :
    Carries Anywhere R (Grammar.unitary d allowance) (Grammar.unitary d' allowance) := by
  induction allowance with
  | zero => exact ⟨fun hdone => absurd hdone (by simp only [Grammar.unitary, outcome_abort,
      reduceCtorEq, not_false_eq_true])⟩
  | succ allowance ih =>
      have hquantification := h.quantification ih allowance
      have hstep : Carries Anywhere R (unitaryRule d allowance (Grammar.unitary d allowance))
          (unitaryRule d' allowance (Grammar.unitary d' allowance)) :=
        .labeled _ _ (.ifOpens '~' (h.negation ih) (.ifOpens '!' hquantification
          (.ifOpens '?' hquantification (h.otherFormula ih allowance))))
      exact ⟨fun hdone => hstep.carry hdone⟩

/-- Formulas are in step where they end. -/
theorem formulaOf (h : Transports d d' R S) (allowance : Nat) :
    Carries ChainEnds R (Grammar.formulaOf d allowance) (Grammar.formulaOf d' allowance) :=
  h.chain (h.unitary allowance)

end Transports

end

end Syntax

end Tptp
