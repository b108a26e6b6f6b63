import Tptp.Proofs.Outcome

/-!
# What Parsers Yield

Facts about the values of a parser, whatever text it is given.

`Yields p W` says three things. What `p` matches has the property `W`. A match
leaves a later part of the same text. And if `p` gives up, the text is to blame:
it is nested too deeply, or it holds a numeral or a decimal that is too large. In
particular a parser of this kind never tries to build a value that is refused,
not even in an alternative that is given up afterwards, since giving up is not
something that alternatives recover from.

The second part is what makes the third one compose. An excuse that was found in
what was left of a text is one in the whole text.

Every combinator has a rule, so that a production of the grammar is treated by
the rules for the combinators it is written with.

## Main definitions

* `Excuse`: A reason to give up that a text is to blame for.
* `Yields`: What a parser yields, and when it gives up.

## Theorems

* `Excuse.of_suffix`: An excuse in a part of a text is one in the text.
* `Yields.bind`, `Yields.map`, `Yields.orElse`, `Yields.many`: Rules of the combinators.
* `skipLayout_ne_aborted`, `yields_skipLayout`: Skipping layout never gives up.
-/

namespace Tptp

namespace Reading

variable {α β : Type}

/-- A reason to give up that can be found in a text. -/
inductive Excuse (text : List Char) : Abort → Prop where
  /-- Nesting is not looked for in the text. -/
  | tooDeep : Excuse text .tooDeep
  /-- A run of digits is longer than the limit. -/
  | numeral {tail : List Char} (htail : tail <:+ text)
      (hlong : Numeral.digitLimit < (tail.takeWhile Char.isDigit).length) :
      Excuse text (.numeralTooLong (tail.takeWhile Char.isDigit).length)
  /-- A decimal lies outside of what can be held. -/
  | decimal {tail : List Char} {literal : DecimalLiteral} (htail : tail <:+ text)
      (hscan : DecimalLiteral.scan? tail = some literal)
      (hrange : literal.value.isRepresentable = false) : Excuse text .decimalOutOfRange

/-- An excuse in a part of a text is one in the text. -/
theorem Excuse.of_suffix {part text : List Char} (hpart : part <:+ text) {reason : Abort}
    (h : Excuse part reason) : Excuse text reason := by
  cases h with
  | tooDeep => exact .tooDeep
  | numeral htail hlong => exact .numeral (htail.trans hpart) hlong
  | decimal htail hscan hrange => exact .decimal (htail.trans hpart) hscan hrange

/-- A parser of values with the property `W`, which gives up only with an excuse. -/
structure Yields (p : Parser α) (W : α → Prop) : Prop where
  /-- What is matched has the property. -/
  value : ∀ {rest after value}, (p rest).outcome = .done value after → W value
  /-- What is left is a later part of the text. -/
  suffix : ∀ {rest after value}, (p rest).outcome = .done value after →
    after.chars <:+ rest.chars
  /-- The text is to blame if the parser gives up. -/
  excuse : ∀ {rest reason}, (p rest).outcome = .aborted reason → Excuse rest.chars reason

namespace Yields

variable {V W : α → Prop} {U : β → Prop} {p q : Parser α}

/-- A property may be replaced by a weaker one. -/
theorem mono (h : Yields p V) (hw : ∀ a, V a → W a) : Yields p W :=
  ⟨fun hp => hw _ (h.value hp), h.suffix, h.excuse⟩

theorem pure {a : α} (h : W a) : Yields (pure a) W := by
  constructor
  · intro rest after value hp
    rw [Parser.outcome_pure, Outcome.done.injEq] at hp
    exact hp.1 ▸ h
  · intro rest after value hp
    rw [Parser.outcome_pure, Outcome.done.injEq] at hp
    exact hp.2 ▸ List.suffix_refl _
  · intro rest reason hp
    exact absurd hp (by simp only [Parser.outcome_pure, reduceCtorEq, not_false_eq_true])

theorem fail (label : String) : Yields (Parser.fail label) W := by
  constructor
  · intro rest after value hp
    exact absurd hp (by simp only [Parser.outcome_fail, reduceCtorEq, not_false_eq_true])
  · intro rest after value hp
    exact absurd hp (by simp only [Parser.outcome_fail, reduceCtorEq, not_false_eq_true])
  · intro rest reason hp
    exact absurd hp (by simp only [Parser.outcome_fail, reduceCtorEq, not_false_eq_true])

/-- Nothing but nesting is a reason to give up at once. -/
theorem tooDeep : Yields (Parser.abort .tooDeep) W := by
  constructor
  · intro rest after value hp
    exact absurd hp (by simp only [Parser.outcome_abort, reduceCtorEq, not_false_eq_true])
  · intro rest after value hp
    exact absurd hp (by simp only [Parser.outcome_abort, reduceCtorEq, not_false_eq_true])
  · intro rest reason hp
    rw [Parser.outcome_abort, Outcome.aborted.injEq] at hp
    exact hp ▸ .tooDeep

/-- The second step may rely on what the first one yields. -/
theorem bind {next : α → Parser β} (hp : Yields p V) (hnext : ∀ a, V a → Yields (next a) U) :
    Yields (p >>= next) U := by
  constructor
  · intro rest after value h
    rcases Parser.bind_done h with ⟨a, middle, h1, h2⟩
    exact (hnext a (hp.value h1)).value h2
  · intro rest after value h
    rcases Parser.bind_done h with ⟨a, middle, h1, h2⟩
    exact ((hnext a (hp.value h1)).suffix h2).trans (hp.suffix h1)
  · intro rest reason h
    rcases Parser.bind_aborted h with h | ⟨a, middle, h1, h2⟩
    · exact hp.excuse h
    · exact ((hnext a (hp.value h1)).excuse h2).of_suffix (hp.suffix h1)

theorem map {f : α → β} (hp : Yields p V) (hf : ∀ a, V a → U (f a)) : Yields (f <$> p) U := by
  rw [Parser.map_eq_bind]
  exact hp.bind fun a ha => pure (hf a ha)

theorem labeled (label : String) (hp : Yields p W) : Yields (Parser.labeled label p) W := by
  constructor
  · intro rest after value h
    exact hp.value (Parser.labeled_done h)
  · intro rest after value h
    exact hp.suffix (Parser.labeled_done h)
  · intro rest reason h
    exact hp.excuse (Parser.labeled_aborted h)

theorem orElse (hp : Yields p W) (hq : Yields q W) : Yields (p <|> q) W := by
  constructor
  · intro rest after value h
    rcases Parser.orElse_done h with h | ⟨_, h⟩
    · exact hp.value h
    · exact hq.value h
  · intro rest after value h
    rcases Parser.orElse_done h with h | ⟨_, h⟩
    · exact hp.suffix h
    · exact hq.suffix h
  · intro rest reason h
    rcases Parser.orElse_aborted h with h | h
    · exact hp.excuse h
    · exact hq.excuse h

/-- A parser that at every place does what some parser of its kind does there. -/
theorem of_outcome (h : ∀ rest, ∃ q, Yields q W ∧ (p rest).outcome = (q rest).outcome) :
    Yields p W := by
  constructor
  · intro rest after value hp
    rcases h rest with ⟨q, hq, heq⟩
    exact hq.value (heq.symm.trans hp)
  · intro rest after value hp
    rcases h rest with ⟨q, hq, heq⟩
    exact hq.suffix (heq.symm.trans hp)
  · intro rest reason hp
    rcases h rest with ⟨q, hq, heq⟩
    exact hq.excuse (heq.symm.trans hp)

theorem ifOpens (c : Char) (hp : Yields p W) (hq : Yields q W) :
    Yields (Parser.ifOpens c p q) W := by
  refine of_outcome fun rest => ?_
  rw [Parser.outcome_ifOpens]
  split
  · exact ⟨p, hp, rfl⟩
  · exact ⟨q, hq, rfl⟩

/-- A series of matches of one parser yields values that all have its property. -/
theorem runs {rest last : Rest} {values : List α} (hp : Yields p W)
    (h : Parser.Runs p rest values last) : (∀ a ∈ values, W a) ∧ last.chars <:+ rest.chars := by
  induction h with
  | nil rest => exact ⟨by simp only [List.not_mem_nil, false_implies, implies_true],
      List.suffix_refl _⟩
  | cons item _ ih =>
      refine ⟨?_, ih.2.trans (hp.suffix item)⟩
      intro a ha
      rcases List.mem_cons.mp ha with rfl | ha
      · exact hp.value item
      · exact ih.1 a ha

/-- A loop yields lists of what its parser yields. -/
theorem loop {r : Parser (List α)} (hp : Yields p W)
    (h : ∀ rest, Parser.Loop p rest (r rest).outcome) : Yields r (∀ a ∈ ·, W a) := by
  constructor
  · intro rest after values hr
    have hl := h rest
    rw [hr] at hl
    exact (hp.runs hl.runs).1
  · intro rest after values hr
    have hl := h rest
    rw [hr] at hl
    exact (hp.runs hl.runs).2
  · intro rest reason hr
    have hl := h rest
    rw [hr] at hl
    rcases hl.runs_aborted with ⟨values, middle, hruns, hitem⟩
    exact (hp.excuse hitem).of_suffix (hp.runs hruns).2

theorem many (hp : Yields p W) : Yields (Parser.many p) (∀ a ∈ ·, W a) :=
  hp.loop (Parser.loop_many p)

theorem repeatWhile (inSight : Rest → Bool) (hp : Yields p W) :
    Yields (Parser.repeatWhile inSight p) (∀ a ∈ ·, W a) :=
  hp.loop (Parser.loop_repeatWhile inSight p)

theorem withDefault {a : α} (ha : W a) (hp : Yields p W) : Yields (Parser.withDefault a p) W :=
  hp.orElse (pure ha)

theorem optional (hp : Yields p W) : Yields (Parser.optional p) (∀ a ∈ ·, W a) := by
  refine orElse (hp.map fun a ha => ?_) (pure ?_)
  · intro b hb
    rw [Option.mem_some_iff] at hb
    exact hb ▸ ha
  · intro b hb
    exact absurd hb (by simp only [Option.mem_def, reduceCtorEq, not_false_eq_true])

end Yields

/-- The property of a list that has an element, and whose elements have one. -/
def Many1 (W : α → Prop) (values : List α) : Prop :=
  values ≠ [] ∧ ∀ a ∈ values, W a

theorem Many1.cons {W : α → Prop} {value : α} {values : List α} (h : W value)
    (hs : ∀ a ∈ values, W a) : Many1 W (value :: values) := by
  refine ⟨List.cons_ne_nil _ _, ?_⟩
  intro a ha
  rcases List.mem_cons.mp ha with rfl | ha
  · exact h
  · exact hs a ha

/-- The start of the next line is a later part of the text. -/
theorem Rest.suffix_nextLine (rest : Rest) : rest.nextLine.chars <:+ rest.chars :=
  List.drop_suffix _ _

/-- Skipping a class leads to a later part of the text. -/
theorem Rest.suffix_skipWhile (c : Char → Bool) (rest : Rest) :
    (rest.skipWhile c).chars <:+ rest.chars :=
  List.drop_suffix _ _

/-- Skipping layout never gives up. -/
theorem skipLayout_ne_aborted (rest : Rest) (reason : Abort) :
    (Parser.skipLayout rest).outcome ≠ .aborted reason := by
  fun_induction Parser.skipLayout rest with
  | case1 _ _ _ ih => exact ih
  | case2 _ _ _ _ _ _ ih => exact ih
  | case3 => simp only [Parser.outcome_fail, ne_eq, reduceCtorEq, not_false_eq_true]
  | case4 => simp only [ne_eq, reduceCtorEq, not_false_eq_true]

/-- Skipping layout leads to a later part of the text. -/
theorem suffix_of_skipLayout {rest after : Rest}
    (h : (Parser.skipLayout rest).outcome = .done () after) : after.chars <:+ rest.chars := by
  fun_induction Parser.skipLayout rest with
  | case1 start rest _ ih => exact ((ih h).trans rest.suffix_nextLine).trans (start.suffix_skipWhile _)
  | case2 start rest _ _ length _ ih =>
      exact ((ih h).trans (List.drop_suffix _ _)).trans (start.suffix_skipWhile _)
  | case3 start rest =>
      exact absurd h (by simp only [Parser.outcome_fail, reduceCtorEq, not_false_eq_true])
  | case4 start rest =>
      rw [Outcome.done.injEq] at h
      exact h.2 ▸ start.suffix_skipWhile _

theorem yields_skipLayout : Yields Parser.skipLayout fun _ => True :=
  ⟨fun _ => trivial, suffix_of_skipLayout, fun hp => absurd hp (skipLayout_ne_aborted _ _)⟩

end Reading

end Tptp
