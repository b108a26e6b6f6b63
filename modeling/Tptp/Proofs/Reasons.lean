import Tptp.Grammar.Signature
import Tptp.Proofs.Yields.Basic

/-!
# Reasons to Give Up

For which reasons a production may give up, whatever text it is given.

Reading is given up for the nesting of a text, for a number in it that cannot be held, or
for a value that cannot be built. Which of these a production can come to shows in the
steps it is made of, so there is one rule for each combinator, with the reasons as a
parameter. What the steps yield plays no part in it.

No name and no type is given up for a number. The digits in a name are characters like
others, so what `Excuse` leaves for the texts of names and types is their nesting.

## Main definitions

* `GivesUpOnly`: A parser that gives up for no other reasons than these.

## Theorems

* `GivesUpOnly.bind`, `GivesUpOnly.orElse`, `GivesUpOnly.repeatWhile`: Rules of the
  combinators.
* `GivesUpOnly.operator`, `GivesUpOnly.token`: No sign and no word is given up.
* `givesUpOnly_atom`, `givesUpOnly_name`: Names are given up if they are refused.
* `givesUpOnly_signature`: Types are given up for their names and their nesting.
-/

namespace Tptp

namespace Reading

/-- A parser that gives up for no other reasons than these. -/
structure GivesUpOnly {α : Type} (E : Abort → Prop) (p : Parser α) : Prop where
  /-- If it gives up, the reason is one of them. -/
  reason : ∀ {rest reason}, (p rest).outcome = .aborted reason → E reason

namespace GivesUpOnly

variable {α β : Type} {E : Abort → Prop} {p q : Parser α}

/-- A parser that never gives up needs no reason. -/
theorem of_ne_aborted (h : ∀ rest reason, (p rest).outcome ≠ .aborted reason) :
    GivesUpOnly E p :=
  ⟨fun hp => absurd hp (h _ _)⟩

theorem pure (a : α) : GivesUpOnly E (pure a) :=
  of_ne_aborted fun _ _ => nofun

theorem fail (label : String) : GivesUpOnly E (Parser.fail label : Parser α) :=
  of_ne_aborted fun _ _ => nofun

theorem abort {reason : Abort} (h : E reason) : GivesUpOnly E (Parser.abort reason : Parser α) :=
  ⟨fun hp => Outcome.aborted.inj hp ▸ h⟩

/-- A value that is built is given up if it is refused. -/
theorem build (hrefused : ∀ refusal, E (.refused refusal)) (built : Except Refusal α) :
    GivesUpOnly E (Parser.build built) := by
  cases built with
  | ok value => exact .pure value
  | error refusal => exact .abort (hrefused refusal)

theorem bind {next : α → Parser β} (hp : GivesUpOnly E p) (hnext : ∀ a, GivesUpOnly E (next a)) :
    GivesUpOnly E (p >>= next) := by
  constructor
  intro rest reason h
  rcases Parser.bind_aborted h with h | ⟨a, middle, -, h⟩
  · exact hp.reason h
  · exact (hnext a).reason h

theorem map (f : α → β) (hp : GivesUpOnly E p) : GivesUpOnly E (f <$> p) :=
  hp.bind fun a => .pure (f a)

theorem labeled (label : String) (hp : GivesUpOnly E p) :
    GivesUpOnly E (Parser.labeled label p) :=
  ⟨fun h => hp.reason (Parser.labeled_aborted h)⟩

theorem orElse (hp : GivesUpOnly E p) (hq : GivesUpOnly E q) : GivesUpOnly E (p <|> q) :=
  ⟨fun h => (Parser.orElse_aborted h).elim hp.reason hq.reason⟩

theorem ifOpens (c : Char) (hp : GivesUpOnly E p) (hq : GivesUpOnly E q) :
    GivesUpOnly E (Parser.ifOpens c p q) := by
  constructor
  intro rest reason h
  rw [Parser.outcome_ifOpens] at h
  split at h
  · exact hp.reason h
  · exact hq.reason h

/-- A loop is given up at one of its items. -/
theorem loop {r : Parser (List α)} (hp : GivesUpOnly E p)
    (h : ∀ rest, Parser.Loop p rest (r rest).outcome) : GivesUpOnly E r := by
  constructor
  intro rest reason haborted
  rcases (haborted ▸ h rest).runs_aborted with ⟨_, _, -, hitem⟩
  exact hp.reason hitem

theorem many (hp : GivesUpOnly E p) : GivesUpOnly E (Parser.many p) :=
  hp.loop (Parser.loop_many p)

theorem repeatWhile (inSight : Rest → Bool) (hp : GivesUpOnly E p) :
    GivesUpOnly E (Parser.repeatWhile inSight p) :=
  hp.loop (Parser.loop_repeatWhile inSight p)

theorem withDefault (a : α) (hp : GivesUpOnly E p) : GivesUpOnly E (Parser.withDefault a p) :=
  hp.orElse (.pure a)

theorem endOfInput : GivesUpOnly E Parser.endOfInput := by
  refine of_ne_aborted fun rest reason => ?_
  rw [Parser.endOfInput]
  split <;> exact nofun

theorem expect (label text : String) (test : Rest → List Char → Bool) :
    GivesUpOnly E (Parser.expect label text test) := by
  refine of_ne_aborted fun rest reason => ?_
  rw [Parser.expect]
  split <;> exact nofun

theorem word (label : String) (first : Char → Bool) : GivesUpOnly E (Parser.word label first) := by
  refine of_ne_aborted fun rest reason => ?_
  rw [Parser.word]
  split
  · split <;> exact nofun
  · exact nofun

theorem quoted (quote : Char) : GivesUpOnly E (Parser.quoted quote) := by
  refine of_ne_aborted fun rest reason => ?_
  rw [Parser.quoted]
  split
  · split <;> exact nofun
  · exact nofun

theorem skipLayout : GivesUpOnly E Parser.skipLayout :=
  of_ne_aborted skipLayout_ne_aborted

theorem lexeme (hp : GivesUpOnly E p) : GivesUpOnly E (Parser.lexeme p) :=
  hp.bind fun _ => skipLayout.bind fun _ => .pure _

theorem operator (text : String) : GivesUpOnly E (Parser.operator text) :=
  (expect _ _ _).lexeme

theorem token (text : String) : GivesUpOnly E (Parser.token text) :=
  (expect _ _ _).lexeme

theorem parens (hp : GivesUpOnly E p) : GivesUpOnly E (Parser.parens p) :=
  .labeled _ ((operator _).bind fun _ => hp.bind fun _ => (operator _).bind fun _ => .pure _)

theorem orParens (hp : GivesUpOnly E p) (hq : GivesUpOnly E q) :
    GivesUpOnly E (Parser.orParens p q) :=
  .ifOpens _ (hp.orElse hq.parens) hp

theorem optionalParens {p : Nat → Parser α} (hdeep : E .tooDeep) (hp : ∀ n, GivesUpOnly E (p n))
    (allowance : Nat) : GivesUpOnly E (Parser.optionalParens p allowance) := by
  induction allowance with
  | zero => exact .abort hdeep
  | succ allowance ih => exact (hp allowance).orParens ih

theorem sepBy1 {separator : Parser β} (hp : GivesUpOnly E p) (hs : GivesUpOnly E separator) :
    GivesUpOnly E (Parser.sepBy1 p separator) :=
  hp.bind fun _ => (many (p := separator *> p) (hs.bind fun _ => hp)).bind fun _ => .pure _

theorem bracketList1 (hp : GivesUpOnly E p) : GivesUpOnly E (Parser.bracketList1 p) :=
  .labeled _ (.labeled _ ((operator _).bind fun _ => (hp.sepBy1 (operator _)).bind fun _ =>
    (operator _).bind fun _ => .pure _))

theorem arguments (hp : GivesUpOnly E p) : GivesUpOnly E (Parser.arguments p) := by
  have hothers := repeatWhile (·.opensWith ',') ((operator ",").bind fun _ => hp)
  exact .ifOpens _ ((operator _).bind fun _ => hp.bind fun _ => hothers.bind fun _ =>
    (operator _).bind fun _ => .pure _) (.pure _)

end GivesUpOnly

end Reading

namespace Grammar

open Reading Parser

variable {E : Abort → Prop}

theorem givesUpOnly_reserved (V : Type) [Vocabulary V] : GivesUpOnly E (reserved V) :=
  .labeled _ ((GivesUpOnly.word _ _).lexeme.map _)

theorem givesUpOnly_mapping {α : Type} {item : Parser α} (h : GivesUpOnly E item) :
    GivesUpOnly E (mapping item) := by
  have hproduct : GivesUpOnly E (Parser.parens (Parser.sepBy1 item (Parser.operator "*"))) :=
    (h.sepBy1 (.operator _)).parens
  have harguments : GivesUpOnly E (mappingArguments item) :=
    ((h.map _).orElse hproduct).bind fun _ => (GivesUpOnly.operator _).bind fun _ => .pure _
  exact (harguments.withDefault _).bind fun _ => h.bind fun _ => .pure _

section

variable (hrefused : ∀ refusal, E (.refused refusal))

include hrefused

theorem givesUpOnly_atom : GivesUpOnly E atom := by
  have htext : GivesUpOnly E (quoted '\x27' <|> lowerWord) :=
    (GivesUpOnly.quoted _).orElse (.word _ _)
  refine .labeled _ (htext.lexeme.bind fun text => ?_)
  split
  · exact .fail _
  · exact .build hrefused _

theorem givesUpOnly_var : GivesUpOnly E var :=
  .labeled _ ((GivesUpOnly.word _ _).lexeme.bind fun _ => .build hrefused _)

theorem givesUpOnly_distinctObject : GivesUpOnly E distinctObject :=
  .labeled _ ((GivesUpOnly.quoted _).lexeme.bind fun _ => .build hrefused _)

theorem givesUpOnly_name (V : Type) [Vocabulary V] : GivesUpOnly E (name V) := by
  have hreserved : GivesUpOnly E (reservedName V) :=
    (GivesUpOnly.expect _ _ _).bind fun _ => (givesUpOnly_reserved V).map _
  exact .labeled _ (hreserved.orElse ((givesUpOnly_atom hrefused).map _))

variable (hdeep : E .tooDeep)

include hdeep

theorem givesUpOnly_polySort_and_argument (allowance : Nat) :
    GivesUpOnly E (polySort allowance) ∧ GivesUpOnly E (polySortArgument allowance) := by
  induction allowance with
  | zero => exact ⟨.abort hdeep, .abort hdeep⟩
  | succ allowance ih =>
      have happlication : GivesUpOnly E (sort >>= fun name =>
          Parser.arguments (polySortArgument allowance) >>= fun sorts =>
            (pure (PolySort.application name sorts) : Parser (PolySort SortName))) :=
        ((givesUpOnly_name hrefused DefinedSort).labeled _).bind fun _ =>
          ih.2.arguments.bind fun _ => .pure _
      exact ⟨.labeled _ (((givesUpOnly_var hrefused).map _).orElse happlication),
        ih.1.orParens ih.2⟩

theorem givesUpOnly_signature (allowance : Nat) : GivesUpOnly E (signature allowance) := by
  have hkind : ∀ n, GivesUpOnly E (kindArgument n) :=
    .optionalParens hdeep fun _ => (GivesUpOnly.token _).bind fun _ => .pure _
  have hvariable : GivesUpOnly E (boundSortVariable allowance) :=
    (givesUpOnly_var hrefused).bind fun _ => (GivesUpOnly.operator _).bind fun _ =>
      (hkind allowance).bind fun _ => .pure _
  have hquantifier : GivesUpOnly E (typeQuantifier allowance) :=
    (GivesUpOnly.token _).bind fun _ => hvariable.bracketList1.bind fun _ =>
      (GivesUpOnly.operator _).bind fun _ => .pure _
  have hmapping :
      GivesUpOnly E (optionalParens (fun n => mapping (polySortArgument n)) allowance) :=
    .optionalParens hdeep (fun n =>
      givesUpOnly_mapping (givesUpOnly_polySort_and_argument hrefused hdeep n).2) allowance
  exact .labeled _ ((hquantifier.withDefault _).bind fun _ => hmapping.bind fun _ => .pure _)

end

end Grammar

end Tptp
