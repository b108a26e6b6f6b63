import Tptp.Proofs.Outcome

/-!
# Parsers and the Texts They Match

What a parser matches, said about characters alone.

A rest is determined by its characters as long as it does not lie behind the end
of the text, and no parser of the language goes there. So the facts that tie a
parser to a grammar speak of lists of characters: the text in front of the parser
and the text that is left.

There are three of them. `Relates p R` is soundness: every match of `p` is one in
the sense of `R`. `ReadsUnless E p` is completeness at one text: `p` matches with a
given value and leaves a given text. `MissesUnless E p` says that `p` does not match,
which is what completeness asks of an alternative in front of the one that is meant.
The last two except texts at which the parser gives up for a reason in `E`. With all
reasons excepted they are `Reads` and `Misses`, which leave it open whether the parser
gives up: nothing that is said with them depends on the allowance for nesting, and a
parser that gave up is dealt with once, where a whole text is read.

## Main definitions

* `Relates`: All matches of a parser lie in a relation.
* `ReadsUnless`, `Reads`: A parser matches, with a value and a text that is left.
* `MissesUnless`, `Misses`: A parser does not match.
* `Fails`: A parser fails at a place.
* `GivesUp`: A parser gives up at the start of a text.
* `Allows`: The allowance suffices for a depth.
* `Steps`: A relation repeated.

## Theorems

* `Relates.bind`, `Relates.orElse`, `Relates.many`: Soundness by combinators.
* `ReadsUnless.bind`, `ReadsUnless.orElse`, `ReadsUnless.many_cons`: Completeness by
  combinators.
* `MissesUnless.bind`, `MissesUnless.then`, `MissesUnless.orElse`: Where alternatives
  are passed over.
-/

namespace Tptp

namespace Reading

variable {α β : Type}

/-- A place is given by the number of characters left. -/
theorem Rest.left_ofList (text : List Char) : (Rest.ofList text).left = text.length :=
  Int.sub_zero _

/-- Places with different characters left are different. -/
theorem Rest.ofList_inj {a b : List Char} (h : Rest.ofList a = Rest.ofList b) : a = b :=
  congrArg Rest.chars h

/-- Moving on in a text that starts here. -/
theorem Rest.drop_ofList (n : Nat) (text : List Char) :
    (Rest.ofList text).drop n = .ofList (text.drop n) :=
  Rest.ext rfl rfl

/-- Skipping a class in a text that starts here. -/
theorem Rest.skipWhile_ofList (p : Char → Bool) (text : List Char) :
    (Rest.ofList text).skipWhile p = .ofList (text.dropWhile p) :=
  Rest.ext ((Rest.ofList text).chars_skipWhile p) rfl

/-- What a text starts with. -/
theorem Rest.startsWith_ofList (prefixed text : List Char) :
    (Rest.ofList text).startsWith prefixed = prefixed.isPrefixOf text :=
  Bool.true_and _

theorem Rest.startsWith_ofList_iff {prefixed text : List Char} :
    (Rest.ofList text).startsWith prefixed = true ↔ prefixed <+: text := by
  rw [Rest.startsWith_ofList, List.isPrefixOf_iff_prefix]

/-- Every match of the parser is one in the sense of the relation between the text
    in front, the value and the text that is left. -/
structure Relates (p : Parser α) (R : List Char → α → List Char → Prop) : Prop where
  sound : ∀ {text value after}, (p (.ofList text)).outcome = .done value after →
    ∃ left, after = .ofList left ∧ R text value left

/-- The parser matches with this value and leaves this text, unless it gives up for a
    reason of this kind. -/
def ReadsUnless (E : Abort → Prop) (p : Parser α) (text : List Char) (value : α)
    (left : List Char) : Prop :=
  (p (.ofList text)).outcome = .done value (.ofList left) ∨
    ∃ reason, E reason ∧ (p (.ofList text)).outcome = .aborted reason

/-- The parser fails, unless it gives up for a reason of this kind. -/
def MissesUnless (E : Abort → Prop) (p : Parser α) (text : List Char) : Prop :=
  (∃ failure, (p (.ofList text)).outcome = .failed failure) ∨
    ∃ reason, E reason ∧ (p (.ofList text)).outcome = .aborted reason

/-- The parser fails at a place. -/
def Fails (p : Parser α) (rest : Rest) : Prop :=
  ∃ failure, (p rest).outcome = .failed failure

/-- A parser that misses and never gives up fails. -/
theorem MissesUnless.fails {p : Parser α} {text : List Char}
    (h : MissesUnless (fun _ => False) p text) : Fails p (.ofList text) := by
  rcases h with h | ⟨_, hnone, _⟩
  · exact h
  · exact hnone.elim

/-- A parser that reads and never gives up matches. -/
theorem ReadsUnless.done {p : Parser α} {text left : List Char} {value : α}
    (h : ReadsUnless (fun _ => False) p text value left) :
    (p (.ofList text)).outcome = .done value (.ofList left) := by
  rcases h with h | ⟨_, hnone, _⟩
  · exact h
  · exact hnone.elim

/-- The parser matches with this value and leaves this text, unless it gives up. -/
abbrev Reads (p : Parser α) (text : List Char) (value : α) (left : List Char) : Prop :=
  ReadsUnless (fun _ => True) p text value left

/-- The parser does not match. -/
abbrev Misses (p : Parser α) (text : List Char) : Prop :=
  MissesUnless (fun _ => True) p text

/-- One relation after another. -/
def Then (R : List Char → α → List Char → Prop) (S : α → List Char → β → List Char → Prop)
    (text : List Char) (value : β) (left : List Char) : Prop :=
  ∃ a middle, R text a middle ∧ S a middle value left

/-- A relation repeated, with the values in order. -/
inductive Steps (R : List Char → α → List Char → Prop) :
    List Char → List α → List Char → Prop where
  | nil (text : List Char) : Steps R text [] text
  | cons {text middle left : List Char} {value : α} {values : List α}
      (item : R text value middle) (others : Steps R middle values left) :
      Steps R text (value :: values) left

namespace Relates

variable {p q : Parser α} {R S : List Char → α → List Char → Prop}

/-- A relation may be replaced by a weaker one. -/
theorem mono (h : Relates p R) (hs : ∀ text value left, R text value left → S text value left) :
    Relates p S := by
  constructor
  intro text value after hp
  rcases h.sound hp with ⟨left, rfl, hr⟩
  exact ⟨left, rfl, hs _ _ _ hr⟩

theorem pure (a : α) : Relates (pure a) fun text value left => value = a ∧ left = text := by
  constructor
  intro text value after hp
  rw [Parser.outcome_pure, Outcome.done.injEq] at hp
  exact ⟨text, hp.2.symm, hp.1.symm, rfl⟩

/-- A parser that only gives up or fails matches nothing. -/
theorem abort (reason : Abort) : Relates (Parser.abort reason) R := by
  constructor
  intro text value after hp
  exact absurd hp (by simp only [Parser.outcome_abort, reduceCtorEq, not_false_eq_true])

theorem bind {next : α → Parser β} {S : α → List Char → β → List Char → Prop}
    (hp : Relates p R) (hnext : ∀ a, Relates (next a) (S a)) :
    Relates (p >>= next) (Then R S) := by
  constructor
  intro text value after h
  rcases Parser.bind_done h with ⟨a, middle, h1, h2⟩
  rcases hp.sound h1 with ⟨between, rfl, hr⟩
  rcases (hnext a).sound h2 with ⟨left, rfl, hs⟩
  exact ⟨left, rfl, a, between, hr, hs⟩

theorem map (hp : Relates p R) (f : α → β) :
    Relates (f <$> p) fun text value left => ∃ a, R text a left ∧ f a = value := by
  constructor
  intro text value after h
  rcases Parser.map_done h with ⟨a, h1, rfl⟩
  rcases hp.sound h1 with ⟨left, rfl, hr⟩
  exact ⟨left, rfl, a, hr, rfl⟩

theorem labeled (label : String) (hp : Relates p R) : Relates (Parser.labeled label p) R :=
  ⟨fun h => hp.sound (Parser.labeled_done h)⟩

theorem orElse (hp : Relates p R) (hq : Relates q R) : Relates (p <|> q) R := by
  constructor
  intro text value after h
  rcases Parser.orElse_done h with h | ⟨_, h⟩
  · exact hp.sound h
  · exact hq.sound h

/-- A parser that at every text does what some sound parser does there. -/
theorem of_outcome
    (h : ∀ text, ∃ q, Relates q R ∧ (p (.ofList text)).outcome = (q (.ofList text)).outcome) :
    Relates p R := by
  constructor
  intro text value after hp
  rcases h text with ⟨q, hq, heq⟩
  exact hq.sound (heq.symm.trans hp)

theorem ifOpens (c : Char) (hp : Relates p R) (hq : Relates q R) :
    Relates (Parser.ifOpens c p q) R := by
  refine of_outcome fun text => ?_
  rw [Parser.outcome_ifOpens]
  split
  · exact ⟨p, hp, rfl⟩
  · exact ⟨q, hq, rfl⟩

/-- Matches of one parser again and again are steps of its relation. -/
theorem runs (hp : Relates p R) {rest last : Rest} {values : List α}
    (h : Parser.Runs p rest values last) {text : List Char} (hrest : rest = .ofList text) :
    ∃ left, last = .ofList left ∧ Steps R text values left := by
  induction h generalizing text with
  | nil rest => exact ⟨text, hrest, .nil text⟩
  | cons item _ ih =>
      rw [hrest] at item
      rcases hp.sound item with ⟨middle, hmiddle, hr⟩
      rcases ih hmiddle with ⟨left, hlast, hsteps⟩
      exact ⟨left, hlast, .cons hr hsteps⟩

theorem loop {r : Parser (List α)} (hp : Relates p R)
    (h : ∀ rest, Parser.Loop p rest (r rest).outcome) : Relates r (Steps R) := by
  constructor
  intro text values after hr
  have hl := h (.ofList text)
  rw [hr] at hl
  exact hp.runs hl.runs rfl

theorem many (hp : Relates p R) : Relates (Parser.many p) (Steps R) :=
  hp.loop (Parser.loop_many p)

theorem repeatWhile (inSight : Rest → Bool) (hp : Relates p R) :
    Relates (Parser.repeatWhile inSight p) (Steps R) :=
  hp.loop (Parser.loop_repeatWhile inSight p)

end Relates

namespace MissesUnless

variable {E : Abort → Prop} {p q : Parser α} {text : List Char}

/-- Whatever the reasons are for which it gives up, the parser does not match. -/
theorem misses (h : MissesUnless E p text) : Misses p text :=
  h.imp_right fun ⟨reason, _, h⟩ => ⟨reason, trivial, h⟩

theorem abort {reason : Abort} (h : E reason) :
    MissesUnless E (Parser.abort reason : Parser α) text :=
  .inr ⟨reason, h, rfl⟩

theorem labeled (label : String) (h : MissesUnless E p text) :
    MissesUnless E (Parser.labeled label p) text := by
  rcases h with ⟨failure, h⟩ | ⟨reason, he, h⟩
  · exact .inl ⟨_, by rw [Parser.outcome_labeled, h]⟩
  · exact .inr ⟨reason, he, by rw [Parser.outcome_labeled, h]⟩

/-- The first of two steps misses. -/
theorem bind {next : α → Parser β} (h : MissesUnless E p text) :
    MissesUnless E (p >>= next) text := by
  rcases h with ⟨failure, h⟩ | ⟨reason, he, h⟩
  · exact .inl ⟨failure, by rw [Parser.outcome_bind, h]⟩
  · exact .inr ⟨reason, he, by rw [Parser.outcome_bind, h]⟩

theorem map {f : α → β} (h : MissesUnless E p text) : MissesUnless E (f <$> p) text := by
  rw [Parser.map_eq_bind]
  exact h.bind

/-- The second of two steps misses. -/
theorem «then» {next : α → Parser β} {a : α} {middle : List Char}
    (hp : ReadsUnless E p text a middle) (h : MissesUnless E (next a) middle) :
    MissesUnless E (p >>= next) text := by
  rcases hp with hp | ⟨reason, he, hp⟩
  · rcases h with ⟨failure, h⟩ | ⟨reason, he, h⟩
    · exact .inl ⟨failure, by rw [Parser.outcome_bind, hp]; exact h⟩
    · exact .inr ⟨reason, he, by rw [Parser.outcome_bind, hp]; exact h⟩
  · exact .inr ⟨reason, he, by rw [Parser.outcome_bind, hp]⟩

theorem orElse (hp : MissesUnless E p text) (hq : MissesUnless E q text) :
    MissesUnless E (p <|> q) text := by
  rcases hp with ⟨failure, hp⟩ | ⟨reason, he, hp⟩
  · rcases hq with ⟨failure, hq⟩ | ⟨reason, he, hq⟩
    · exact .inl ⟨failure, by rw [Parser.outcome_orElse, hp]; exact hq⟩
    · exact .inr ⟨reason, he, by rw [Parser.outcome_orElse, hp]; exact hq⟩
  · exact .inr ⟨reason, he, by rw [Parser.outcome_orElse, hp]⟩

end MissesUnless

namespace ReadsUnless

variable {E : Abort → Prop} {p q : Parser α} {text middle left : List Char} {value : α}

theorem pure (a : α) (text : List Char) : ReadsUnless E (pure a) text a text :=
  .inl rfl

theorem abort {reason : Abort} (h : E reason) :
    ReadsUnless E (Parser.abort reason) text value left :=
  .inr ⟨reason, h, rfl⟩

theorem labeled (label : String) (h : ReadsUnless E p text value left) :
    ReadsUnless E (Parser.labeled label p) text value left := by
  rcases h with h | ⟨reason, he, h⟩
  · exact .inl (by rw [Parser.outcome_labeled, h])
  · exact .inr ⟨reason, he, by rw [Parser.outcome_labeled, h]⟩

theorem bind {next : α → Parser β} {result : β} (hp : ReadsUnless E p text value middle)
    (h : ReadsUnless E (next value) middle result left) :
    ReadsUnless E (p >>= next) text result left := by
  rcases hp with hp | ⟨reason, he, hp⟩
  · rcases h with h | ⟨reason, he, h⟩
    · exact .inl (by rw [Parser.outcome_bind, hp]; exact h)
    · exact .inr ⟨reason, he, by rw [Parser.outcome_bind, hp]; exact h⟩
  · exact .inr ⟨reason, he, by rw [Parser.outcome_bind, hp]⟩

theorem map (f : α → β) (h : ReadsUnless E p text value left) :
    ReadsUnless E (f <$> p) text (f value) left := by
  rw [Parser.map_eq_bind]
  exact h.bind (pure _ _)

/-- The first alternative is the one that is meant. -/
theorem orElse (h : ReadsUnless E p text value left) : ReadsUnless E (p <|> q) text value left := by
  rcases h with h | ⟨reason, he, h⟩
  · exact .inl (by rw [Parser.outcome_orElse, h])
  · exact .inr ⟨reason, he, by rw [Parser.outcome_orElse, h]⟩

/-- The first alternative is passed over. -/
theorem orElse_of_misses (hp : MissesUnless E p text) (h : ReadsUnless E q text value left) :
    ReadsUnless E (p <|> q) text value left := by
  rcases hp with ⟨failure, hp⟩ | ⟨reason, he, hp⟩
  · rcases h with h | ⟨reason, he, h⟩
    · exact .inl (by rw [Parser.outcome_orElse, hp]; exact h)
    · exact .inr ⟨reason, he, by rw [Parser.outcome_orElse, hp]; exact h⟩
  · exact .inr ⟨reason, he, by rw [Parser.outcome_orElse, hp]⟩

/-- The repetition ends where its parser misses. -/
theorem many_nil (h : MissesUnless E p text) : ReadsUnless E (Parser.many p) text [] text := by
  rcases h with ⟨failure, h⟩ | ⟨reason, he, h⟩
  · exact .inl (by rw [Parser.outcome_many, h])
  · exact .inr ⟨reason, he, by rw [Parser.outcome_many, h]⟩

theorem many_cons {values : List α} (hp : ReadsUnless E p text value middle)
    (hlt : middle.length < text.length) (h : ReadsUnless E (Parser.many p) middle values left) :
    ReadsUnless E (Parser.many p) text (value :: values) left := by
  rcases hp with hp | ⟨reason, he, hp⟩
  · rcases h with h | ⟨reason, he, h⟩
    · refine .inl ?_
      rw [Parser.outcome_many, hp]
      exact (if_pos hlt).trans (by rw [h]; rfl)
    · refine .inr ⟨reason, he, ?_⟩
      rw [Parser.outcome_many, hp]
      exact (if_pos hlt).trans (by rw [h]; rfl)
  · exact .inr ⟨reason, he, by rw [Parser.outcome_many, hp]⟩

/-- The repetition ends where no item is in sight. -/
theorem repeatWhile_nil {inSight : Rest → Bool} (h : inSight (.ofList text) = false) :
    ReadsUnless E (Parser.repeatWhile inSight p) text [] text := by
  refine .inl ?_
  rw [Parser.outcome_repeatWhile, h]
  rfl

theorem repeatWhile_cons {inSight : Rest → Bool} {values : List α}
    (hsight : inSight (.ofList text) = true) (hp : ReadsUnless E p text value middle)
    (hlt : middle.length < text.length)
    (h : ReadsUnless E (Parser.repeatWhile inSight p) middle values left) :
    ReadsUnless E (Parser.repeatWhile inSight p) text (value :: values) left := by
  rcases hp with hp | ⟨reason, he, hp⟩
  · rcases h with h | ⟨reason, he, h⟩
    · refine .inl ?_
      rw [Parser.outcome_repeatWhile, hsight, hp]
      exact (if_pos hlt).trans (by rw [h]; rfl)
    · refine .inr ⟨reason, he, ?_⟩
      rw [Parser.outcome_repeatWhile, hsight, hp]
      exact (if_pos hlt).trans (by rw [h]; rfl)
  · exact .inr ⟨reason, he, by rw [Parser.outcome_repeatWhile, hsight, hp]; rfl⟩

end ReadsUnless

section

variable {E : Abort → Prop} {p q : Parser α} {c : Char} {text left : List Char} {value : α}

/-- The character opens the text. -/
theorem opensWith_ofList_iff : (Rest.ofList text).opensWith c = true ↔ text.head? = some c :=
  decide_eq_true_iff

theorem reads_ifOpens (hc : text.head? = some c) (h : ReadsUnless E p text value left) :
    ReadsUnless E (Parser.ifOpens c p q) text value left := by
  rw [ReadsUnless, Parser.outcome_ifOpens, if_pos (opensWith_ofList_iff.mpr hc)]
  exact h

theorem reads_ifOpens_of_ne (hc : text.head? ≠ some c) (h : ReadsUnless E q text value left) :
    ReadsUnless E (Parser.ifOpens c p q) text value left := by
  rw [ReadsUnless, Parser.outcome_ifOpens, if_neg (mt opensWith_ofList_iff.mp hc)]
  exact h

theorem misses_ifOpens (hc : text.head? = some c) (h : MissesUnless E p text) :
    MissesUnless E (Parser.ifOpens c p q) text := by
  rw [MissesUnless, Parser.outcome_ifOpens, if_pos (opensWith_ofList_iff.mpr hc)]
  exact h

theorem misses_ifOpens_of_ne (hc : text.head? ≠ some c) (h : MissesUnless E q text) :
    MissesUnless E (Parser.ifOpens c p q) text := by
  rw [MissesUnless, Parser.outcome_ifOpens, if_neg (mt opensWith_ofList_iff.mp hc)]
  exact h

end

/-- A parser gives up at the start of a text. -/
def GivesUp (reason : Abort) (p : Parser α) (text : List Char) : Prop :=
  (p (.ofList text)).outcome = .aborted reason

namespace GivesUp

variable {reason : Abort} {p q : Parser α} {text inner : List Char}

theorem bind {next : α → Parser β} (h : GivesUp reason p text) :
    GivesUp reason (p >>= next) text := by
  rw [GivesUp, Parser.outcome_bind, h]

theorem «then» {next : α → Parser β} {a : α}
    (hp : (p (.ofList text)).outcome = .done a (.ofList inner))
    (h : GivesUp reason (next a) inner) : GivesUp reason (p >>= next) text := by
  rw [GivesUp, Parser.outcome_bind, hp]
  exact h

theorem map (f : α → β) (h : GivesUp reason p text) : GivesUp reason (f <$> p) text :=
  h.bind

theorem labeled (label : String) (h : GivesUp reason p text) :
    GivesUp reason (Parser.labeled label p) text := by
  rw [GivesUp, Parser.outcome_labeled, h]

theorem orElse (h : GivesUp reason p text) : GivesUp reason (p <|> q) text := by
  rw [GivesUp, Parser.outcome_orElse, h]

theorem orElse_of_misses (hp : MissesUnless (· = reason) p text) (hq : GivesUp reason q text) :
    GivesUp reason (p <|> q) text := by
  rcases hp with ⟨_, hp⟩ | ⟨_, rfl, hp⟩
  · rw [GivesUp, Parser.outcome_orElse, hp]
    exact hq
  · exact orElse hp

theorem ifOpens {c : Char} (hhead : text.head? = some c) (h : GivesUp reason p text) :
    GivesUp reason (Parser.ifOpens c p q) text := by
  rw [GivesUp, Parser.outcome_ifOpens, if_pos (opensWith_ofList_iff.mpr hhead)]
  exact h

theorem ifOpens_of_ne {c : Char} (hhead : text.head? ≠ some c) (h : GivesUp reason q text) :
    GivesUp reason (Parser.ifOpens c p q) text := by
  rw [GivesUp, Parser.outcome_ifOpens, if_neg (mt opensWith_ofList_iff.mp hhead)]
  exact h

end GivesUp

section

variable {E : Abort → Prop} {depth n : Nat}

/-- The allowance suffices for the depth, unless giving up for nesting is excepted. -/
def Allows (E : Abort → Prop) (depth allowance : Nat) : Prop :=
  depth ≤ allowance ∨ E .tooDeep

theorem Allows.mono {shallow large : Nat} (h : Allows E depth n) (hdepth : shallow ≤ depth)
    (hn : n ≤ large) : Allows E shallow large :=
  h.imp_left fun hle => Nat.le_trans hdepth (Nat.le_trans hle hn)

theorem Allows.of_succ (h : Allows E (depth + 1) (n + 1)) : Allows E depth n :=
  h.imp_left Nat.le_of_succ_le_succ

theorem Allows.tooDeep (h : Allows E (depth + 1) 0) : E .tooDeep :=
  h.resolve_left (Nat.not_succ_le_zero depth)

end

end Reading

end Tptp
