import Mathlib.Data.List.Forall2
import Tptp.Proofs.Reads
import Tptp.Reading.Bracket

/-!
# Parsers in Step

Two parsers that take the same parts of a text.

Two grammars that differ in details are compared run by run: wherever the one
matches, the other one does, takes the same characters, and comes to a value that
corresponds to that of the first. `Carries` says so of two parsers and of one
direction. It is relative to what is left behind the match, since an optional part
may be missing in the one grammar and simply not there in the other, and then only
the next sign shows that nothing has been passed over.

A correspondence of values is a relation. The claim is about every value that
corresponds to the one that was read, and not about some value, so a value with no
counterpart, such as a formula with an operator that the other language lacks, makes
no demand.

## Main definitions

* `Carries`: Where one parser matches another one does.

## Theorems

* `fails_operator`, `opens_of_operator`: Where a sign is taken.
* `Carries.many`: Repetitions, in front of a place where both of them end.
* `Carries.orParens`, `Carries.optionalParens`: Items in redundant parentheses.
* `Carries.bracketList1`: Lists between brackets.
-/

namespace Tptp

namespace Reading

variable {α β : Type}

/-- A place with a character to come is the start of a text. -/
theorem Rest.eq_ofList {rest : Rest} {c : Char} (h : rest.opensWith c = true) :
    rest = .ofList rest.chars := by
  refine Rest.ext rfl (rest.beyond_eq.resolve_left fun hnil => ?_)
  rw [Rest.opensWith, hnil, List.head?_nil, decide_eq_true_eq] at h
  exact absurd h (by simp only [reduceCtorEq, not_false_eq_true])

namespace Fails

variable {p q : Parser α} {rest : Rest}

theorem labeled (label : String) (h : Fails p rest) : Fails (Parser.labeled label p) rest := by
  rcases h with ⟨failure, h⟩
  exact ⟨_, by rw [Parser.outcome_labeled, h]⟩

/-- A step that fails is the last one. -/
theorem bind {next : α → Parser β} (h : Fails p rest) : Fails (p >>= next) rest := by
  rcases h with ⟨failure, h⟩
  exact ⟨failure, by rw [Parser.outcome_bind, h]⟩

/-- The second step fails. -/
theorem «then» {next : α → Parser β} {a : α} {middle : Rest}
    (hp : (p rest).outcome = .done a middle) (h : Fails (next a) middle) :
    Fails (p >>= next) rest := by
  rcases h with ⟨failure, h⟩
  exact ⟨failure, by rw [Parser.outcome_bind, hp]; exact h⟩

theorem map {f : α → β} (h : Fails p rest) : Fails (f <$> p) rest := by
  rw [Parser.map_eq_bind]
  exact h.bind

/-- A mapped parser fails where the parser does. -/
theorem of_map {f : α → β} (h : Fails (f <$> p) rest) : Fails p rest := by
  rcases h with ⟨failure, h⟩
  rw [Parser.outcome_map] at h
  rcases hp : (p rest).outcome with _ | found | _
  · rw [hp] at h
    exact absurd h (by simp only [Outcome.map, reduceCtorEq, not_false_eq_true])
  · exact ⟨found, hp⟩
  · rw [hp] at h
    exact absurd h (by simp only [Outcome.map, reduceCtorEq, not_false_eq_true])

theorem orElse (hp : Fails p rest) (hq : Fails q rest) : Fails (p <|> q) rest := by
  rcases hp with ⟨_, hp⟩
  rcases hq with ⟨failure, hq⟩
  exact ⟨failure, by rw [Parser.outcome_orElse, hp]; exact hq⟩

/-- A parser that fails does not match. -/
theorem not_done (h : Fails p rest) {value : α} {after : Rest} :
    (p rest).outcome ≠ .done value after := by
  rcases h with ⟨failure, h⟩
  rw [h]
  simp only [ne_eq, reduceCtorEq, not_false_eq_true]

end Fails

/-- Two steps match if one after the other does. -/
theorem done_bind {p : Parser α} {next : α → Parser β} {rest middle after : Rest} {a : α} {b : β}
    (hp : (p rest).outcome = .done a middle) (hnext : (next a middle).outcome = .done b after) :
    ((p >>= next) rest).outcome = .done b after :=
  Parser.bind_outcome_eq_done_iff.mpr ⟨a, middle, hp, hnext⟩

theorem done_map (f : α → β) {p : Parser α} {rest after : Rest} {a : α}
    (h : (p rest).outcome = .done a after) : ((f <$> p) rest).outcome = .done (f a) after := by
  rw [Parser.outcome_map, h]
  rfl

theorem done_labeled (label : String) {p : Parser α} {rest after : Rest} {a : α}
    (h : (p rest).outcome = .done a after) :
    (Parser.labeled label p rest).outcome = .done a after := by
  rw [Parser.outcome_labeled, h]

/-- The first alternative matches. -/
theorem done_orElse {p q : Parser α} {rest after : Rest} {a : α}
    (h : (p rest).outcome = .done a after) : ((p <|> q) rest).outcome = .done a after := by
  rw [Parser.outcome_orElse, h]

/-- The first alternative fails, and the second one matches. -/
theorem done_orElse_of_fails {p q : Parser α} {rest after : Rest} {a : α} (hp : Fails p rest)
    (hq : (q rest).outcome = .done a after) : ((p <|> q) rest).outcome = .done a after := by
  rcases hp with ⟨failure, hp⟩
  rw [Parser.outcome_orElse, hp]
  exact hq

/-- A repetition ends where its parser fails. -/
theorem many_done_of_fails {p : Parser α} {rest last : Rest} {values : List α}
    (h : Fails p rest) (hmany : (Parser.many p rest).outcome = .done values last) :
    values = [] ∧ last = rest := by
  rcases h with ⟨failure, h⟩
  rw [Parser.outcome_many, h, Outcome.done.injEq] at hmany
  exact ⟨hmany.1.symm, hmany.2.symm⟩

section

variable {sign : String} {c : Char} {rest after : Rest} {value : String}

/-- A sign of one character stands only where the text opens with it. -/
theorem opensWith_of_startsWith (hsign : sign.toList = [c])
    (h : rest.startsWith sign.toList = true) : rest.opensWith c = true := by
  rw [Rest.startsWith, Bool.and_eq_true, hsign, List.isPrefixOf_iff_prefix] at h
  rcases h.2 with ⟨tail, htail⟩
  rw [Rest.opensWith, ← htail]
  exact decide_eq_true rfl

/-- A sign that does not stand at a place is not taken there. -/
theorem fails_operator (hsign : sign.toList = [c]) (h : rest.opensWith c = false) :
    Fails (Parser.operator sign) rest := by
  have hexpect : Fails (Parser.expect "operator" sign Rest.startsWith) rest := by
    rw [Fails, Parser.expect, if_neg]
    · exact ⟨_, rfl⟩
    · intro hstarts
      rw [opensWith_of_startsWith hsign hstarts] at h
      exact absurd h (by decide)
  exact hexpect.bind

/-- A sign that is taken stands at the place. -/
theorem opens_of_operator (hsign : sign.toList = [c])
    (h : (Parser.operator sign rest).outcome = .done value after) : rest.opensWith c = true := by
  rw [← Bool.not_eq_false]
  exact fun hnot => (fails_operator hsign hnot).not_done h

/-- A text opens with one character. -/
theorem opensWith_eq_false {d : Char} (h : rest.opensWith c = true) (hne : c ≠ d) :
    rest.opensWith d = false := by
  rw [Rest.opensWith, decide_eq_true_eq] at h
  rw [Rest.opensWith, h, decide_eq_false_iff_not, Option.some.injEq]
  exact hne

end

/-- Where the first parser matches, in front of a place of some kind, the second one
    matches with every corresponding value, and leaves the same. -/
structure Carries (E : Rest → Prop) (R : α → β → Prop) (p : Parser α) (q : Parser β) : Prop where
  carry : ∀ {rest after : Rest} {a : α} {b : β}, (p rest).outcome = .done a after → E after →
    R a b → (q rest).outcome = .done b after

namespace Carries

variable {E F : Rest → Prop} {R : α → β → Prop} {p p' : Parser α} {q q' : Parser β}

/-- There may be less to show of the places behind. -/
theorem mono (h : Carries F R p q) (hE : ∀ {rest}, E rest → F rest) : Carries E R p q :=
  ⟨fun hp hafter hr => h.carry hp (hE hafter) hr⟩

/-- Labels play no part in what a parser matches. -/
theorem labeled_left (label : String) (h : Carries E R p q) :
    Carries E R (Parser.labeled label p) q :=
  ⟨fun hp hafter hr => h.carry (Parser.labeled_done hp) hafter hr⟩

theorem labeled_right (label : String) (h : Carries E R p q) :
    Carries E R p (Parser.labeled label q) :=
  ⟨fun hp hafter hr => done_labeled label (h.carry hp hafter hr)⟩

theorem labeled (label label' : String) (h : Carries E R p q) :
    Carries E R (Parser.labeled label p) (Parser.labeled label' q) :=
  (h.labeled_left label).labeled_right label'

/-- The next character decides in the same way. -/
theorem ifOpens (c : Char) (h : Carries E R p q) (h' : Carries E R p' q') :
    Carries E R (Parser.ifOpens c p p') (Parser.ifOpens c q q') := by
  constructor
  intro rest after a b hp hafter hr
  rw [Parser.outcome_ifOpens] at hp ⊢
  split
  · next hc =>
      rw [if_pos hc] at hp
      exact h.carry hp hafter hr
  · next hc =>
      rw [if_neg hc] at hp
      exact h'.carry hp hafter hr

/-- Repetitions of parsers in step are in step, in front of a place where the second
    one ends. An item may have another one behind it or be the last. -/
theorem many (h : Carries F R p q) (hitem : ∀ {rest}, ¬ Fails p rest → F rest)
    (hlast : ∀ {rest}, E rest → F rest) (hend : ∀ {rest}, E rest → Fails q rest) :
    Carries E (List.Forall₂ R) (Parser.many p) (Parser.many q) := by
  constructor
  intro rest after values others hp hafter hr
  -- Every item but the last one leaves fewer characters.
  induction hsize : rest.size using Nat.strongRecOn generalizing rest values others with
  | _ size ih =>
      rw [Parser.outcome_many] at hp ⊢
      rcases hitem' : (p rest).outcome with ⟨a, middle⟩ | failure | _
      · rw [hitem'] at hp
        simp only at hp
        split at hp
        · next hlt =>
            rcases hmore : (Parser.many p middle).outcome with ⟨rest', last⟩ | _ | _
            · rw [hmore, Outcome.map, Outcome.done.injEq] at hp
              rcases hp with ⟨rfl, rfl⟩
              rcases hr with _ | ⟨hab, hrest⟩
              -- Another item follows, or the repetition ends here.
              have hmiddle : F middle := by
                by_cases hfails : Fails p middle
                · exact hlast ((many_done_of_fails hfails hmore).2 ▸ hafter)
                · exact hitem hfails
              rw [h.carry hitem' hmiddle hab]
              simp only [hlt, if_true]
              rw [ih _ (hsize ▸ hlt) hmore hrest rfl]
              rfl
            · rw [hmore] at hp
              exact absurd hp (by simp only [Outcome.map, reduceCtorEq, not_false_eq_true])
            · rw [hmore] at hp
              exact absurd hp (by simp only [Outcome.map, reduceCtorEq, not_false_eq_true])
        · next hlt =>
            rw [Outcome.done.injEq] at hp
            rcases hp with ⟨rfl, rfl⟩
            rcases hr with _ | ⟨hab, ⟨⟩⟩
            rw [h.carry hitem' (hlast hafter) hab]
            simp only [hlt, if_false]
      · rw [hitem', Outcome.done.injEq] at hp
        rcases hp with ⟨rfl, rfl⟩
        rcases hr with _ | _
        rcases hend hafter with ⟨failure, hfails⟩
        rw [hfails]
      · rw [hitem'] at hp
        exact absurd hp (by simp only [reduceCtorEq, not_false_eq_true])

/-- Items between parentheses have the closing one behind them. -/
theorem parens (h : Carries (fun rest => rest.opensWith ')' = true) R p q) :
    Carries E R (Parser.parens p) (Parser.parens q) := by
  refine .labeled _ _ ⟨fun {rest after a b} hp _ hr => ?_⟩
  rcases Parser.bind_done hp with ⟨_, _, hopening, hp⟩
  rcases Parser.bind_done hp with ⟨value, middle, hvalue, hp⟩
  rcases Parser.bind_done hp with ⟨_, _, hclosing, hpure⟩
  rw [Parser.outcome_pure, Outcome.done.injEq] at hpure
  rcases hpure with ⟨rfl, rfl⟩
  exact done_bind hopening (done_bind (h.carry hvalue (opens_of_operator rfl hclosing) hr)
    (done_bind hclosing rfl))

/-- Items in one pair of parentheses or none, if behind a parenthesis the bare item of
    the second kind is given up where that of the first is. -/
theorem orParens (hbare : Carries E R p q)
    (hinner : Carries (fun rest => rest.opensWith ')' = true) R p' q')
    (hfails : ∀ {rest}, rest.opensWith '(' = true → Fails p rest → Fails q rest) :
    Carries E R (Parser.orParens p p') (Parser.orParens q q') := by
  constructor
  intro rest after a b hp hafter hr
  rw [Parser.orParens, Parser.outcome_ifOpens] at hp ⊢
  split
  · next hc =>
      rw [if_pos hc] at hp
      -- The parenthesis may be a part of the bare item, which is tried first in both runs.
      rcases Parser.orElse_done hp with hp | ⟨hmiss, hp⟩
      · exact done_orElse (hbare.carry hp hafter hr)
      · exact done_orElse_of_fails (hfails hc hmiss) (hinner.parens.carry hp hafter hr)
  · next hc =>
      rw [if_neg hc] at hp
      exact hbare.carry hp hafter hr

/-- Items in any number of parentheses. -/
theorem optionalParens {p : Nat → Parser α} {q : Nat → Parser β}
    (h : ∀ allowance, Carries E R (p allowance) (q allowance))
    (hE : ∀ {rest : Rest}, rest.opensWith ')' = true → E rest)
    (hfails : ∀ {allowance rest}, rest.opensWith '(' = true → Fails (p allowance) rest →
      Fails (q allowance) rest) (allowance : Nat) :
    Carries E R (Parser.optionalParens p allowance) (Parser.optionalParens q allowance) := by
  induction allowance with
  | zero => exact ⟨fun hp => absurd hp (by simp only [Parser.optionalParens, Parser.outcome_abort,
      reduceCtorEq, not_false_eq_true])⟩
  | succ allowance ih =>
      have hstep := (h allowance).orParens (ih.mono hE) hfails
      exact ⟨fun hp => hstep.carry hp⟩

/-- The sign behind an item of a list. -/
def ListGoesOn (rest : Rest) : Prop :=
  rest.opensWith ',' = true ∨ rest.opensWith ']' = true

/-- Lists between brackets, of items that are in step in front of the signs of a
    list. -/
theorem bracketList1 (h : Carries ListGoesOn R p q) :
    Carries E (List.Forall₂ R) (Parser.bracketList1 p) (Parser.bracketList1 q) := by
  -- Every item but the first one comes with the comma in front of it.
  have hcomma : Carries ListGoesOn R (Parser.operator "," *> p) (Parser.operator "," *> q) := by
    constructor
    intro rest after a b hp hafter hr
    rcases Parser.bind_done hp with ⟨_, _, hsign, hitem⟩
    exact done_bind hsign (h.carry hitem hafter hr)
  have hmany : Carries (fun rest => rest.opensWith ']' = true) (List.Forall₂ R)
      (Parser.many (Parser.operator "," *> p)) (Parser.many (Parser.operator "," *> q)) := by
    refine hcomma.many (fun {rest} hnot => .inl ?_) .inr fun {rest} hclosing => ?_
    · rw [← Bool.not_eq_false]
      exact fun hcomma => hnot (Fails.bind (fails_operator rfl hcomma))
    · exact Fails.bind (fails_operator rfl (opensWith_eq_false hclosing (by decide)))
  refine .labeled _ _ (.labeled _ _ ⟨fun {rest after values others} hp _ hr => ?_⟩)
  rcases Parser.bind_done hp with ⟨_, _, hopening, hp⟩
  rcases Parser.bind_done hp with ⟨_, last, hlist, hp⟩
  rcases Parser.bind_done hp with ⟨_, _, hclosing, hpure⟩
  rcases Parser.bind_done hlist with ⟨first, middle, hfirst, hlist⟩
  rcases Parser.bind_done hlist with ⟨rest', _, hrest, hlist⟩
  rw [Parser.outcome_pure, Outcome.done.injEq] at hpure hlist
  rcases hpure with ⟨rfl, rfl⟩
  rcases hlist with ⟨rfl, rfl⟩
  rcases hr with _ | ⟨hab, hr⟩
  have hlast := opens_of_operator (c := ']') rfl hclosing
  -- Behind the first item there is a comma, or the list ends with it.
  have hmiddle : ListGoesOn middle := by
    by_cases hsign : middle.opensWith ',' = true
    · exact .inl hsign
    · have hitem : Fails (Parser.operator "," *> p) middle :=
        Fails.bind (fails_operator rfl (Bool.not_eq_true _ ▸ hsign))
      exact .inr ((many_done_of_fails hitem hrest).2 ▸ hlast)
  exact done_bind hopening (done_bind (done_bind (h.carry hfirst hmiddle hab)
    (done_bind (hmany.carry hrest hlast hr) rfl)) (done_bind hclosing rfl))

end Carries

end Reading

end Tptp
