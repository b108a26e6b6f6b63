import Tptp.Proofs.Bookkeeping.Primitive
import Tptp.Proofs.Bookkeeping.Story
import Tptp.Reading.Session

/-!
# Assembled Parsers

How a parser is put together, and what happens to failures while it runs.

What a parser comes to does not tell how many failures arose on the way, nor which of them
were dropped where. This is decided by the combinators that it is made of. An assembly names
them. It stands for a parser, and it also tells what happens to failures when the parser is
run: a primitive can only raise one, a label is put on the failure that leaves its
production, and alternatives and repetitions drop failures.

The events also tell what the session has on record whenever a primitive is run. So they
tie the record of the parser to the failures at every moment at which a character could
be read, not only in the end.

## Main definitions

* `Assembly`, `Assembly.parser`: How a parser is put together, and the parser.
* `Assembly.events`: What happens to failures.

## Theorems

* `Assembly.leads`: Events lead to the record that the parser has.
-/

namespace Tptp

namespace Reading

variable {α β : Type}

/-- How a parser is put together. -/
inductive Assembly : Type → Type 1 where
  | pure {α : Type} (value : α) : Assembly α
  | primitive {α : Type} (p : Parser α) (h : IsPrimitive p) : Assembly α
  | bind {α β : Type} (first : Assembly α) (next : α → Assembly β) : Assembly β
  | labeled {α : Type} (label : String) (inner : Assembly α) : Assembly α
  | orElse {α : Type} (first second : Assembly α) : Assembly α
  /-- The next character decides. -/
  | inspect {α : Type} (choose : Option Char → Assembly α) : Assembly α
  | many {α : Type} (item : Assembly α) : Assembly (List α)
  | repeatWhile {α : Type} (inSight : Option Char → Bool) (item : Assembly α) :
      Assembly (List α)

/-- The events of a repetition, from those of an item. The loop goes on as that of the
    parser does, and it drops the last failure or lets it go on. -/
def loopEvents (inSight : Option Char → Bool) (last : List Event) (p : ParserOn Session α)
    (events : Session → List Event) (session : Session) : List Event :=
  if inSight session.rest.chars.head? then
    match p session with
    | ⟨.done _ after, dropped⟩ =>
      if _progress : after.size < session.rest.size then
        events session ++
          loopEvents inSight last p events (Place.moveTo session after dropped)
      else events session
    | ⟨.failed _, _⟩ => events session ++ last
    | ⟨.aborted _, _⟩ => events session
  else []
termination_by session.rest.size
decreasing_by exact _progress

namespace Assembly

/-- The parser that is put together. -/
def parser : {α : Type} → Assembly α → ParserOn Session α
  | _, .pure value => Pure.pure value
  | _, .primitive p _ => Parser.lift p
  | _, .bind first next => first.parser >>= fun value => (next value).parser
  | _, .labeled label inner => Parser.labeled label inner.parser
  | _, .orElse first second => first.parser <|> second.parser
  | _, .inspect choose => fun session => (choose session.rest.chars.head?).parser session
  | _, .many item => Parser.many item.parser
  | _, .repeatWhile inSight item =>
    Parser.repeatWhile (fun rest => inSight rest.chars.head?) item.parser

/-- What happens to failures while the parser runs. -/
def events : {α : Type} → Assembly α → Session → List Event
  | _, .pure _, _ => []
  | _, .primitive p _, session =>
    match (p session.rest).outcome with
    -- The failure of a primitive has one label.
    | .failed failure => .seen session.furthest :: failure.labels.map (.raised failure.left)
    | _ => [.seen session.furthest]
  | _, .bind first next, session =>
    match first.parser session with
    | ⟨.done value rest, dropped⟩ =>
      first.events session ++ (next value).events (Place.moveTo session rest dropped)
    | _ => first.events session
  | _, .labeled label inner, session =>
    match (inner.parser session).outcome with
    | .failed _ => inner.events session ++ [.labeled label]
    | _ => inner.events session
  | _, .orElse first second, session =>
    match first.parser session with
    -- The failure is dropped, and the second alternative starts where the first one did.
    | ⟨.failed failure, dropped⟩ =>
      first.events session ++ .dropped :: second.events
        (Place.moveTo session session.rest (Failure.later dropped (some failure)))
    | _ => first.events session
  | _, .inspect choose, session => (choose session.rest.chars.head?).events session
  | _, .many item, session =>
    loopEvents (fun _ => true) [.dropped] item.parser item.events session
  | _, .repeatWhile inSight item, session =>
    loopEvents inSight [] item.parser item.events session

end Assembly

/-- The place is one of a text of this length. -/
def InText (size : Nat) (rest : Rest) : Prop :=
  ∃ left, rest = .ofList left ∧ left.length ≤ size

/-- Events after which no failure is under way, and the one on record is that of a parser. -/
structure Settled (size : Nat) (ledger : Ledger) (events : List Event)
    (dropped : Option Failure) : Prop where
  orderly : ledger.Orderly size events
  pending : (ledger.follow events).pending = none
  record : (ledger.follow events).record = Failure.later ledger.record dropped

/-- Events after which a failure is under way. It is the last one that arose. -/
structure Escaping (size : Nat) (ledger : Ledger) (events : List Event) (failure : Failure)
    (dropped : Option Failure) : Prop where
  orderly : ledger.Orderly size events
  former : ∃ former : Ledger, former.pending = none ∧
    former.record = Failure.later ledger.record dropped ∧
      ledger.follow events = former.raise failure

namespace Settled

variable {size : Nat} {ledger : Ledger} {first later : List Event}
  {dropped dropped' : Option Failure}

theorem nil (h : ledger.pending = none) : Settled size ledger [] none :=
  ⟨trivial, h, (Failure.later_none _).symm⟩

theorem append (h : Settled size ledger first dropped)
    (hlater : Settled size (ledger.follow first) later dropped') :
    Settled size ledger (first ++ later) (Failure.later dropped dropped') := by
  refine ⟨Ledger.orderly_append.mpr ⟨h.orderly, hlater.orderly⟩, ?_, ?_⟩
  · rw [Ledger.follow_append, hlater.pending]
  · rw [Ledger.follow_append, hlater.record, h.record, Failure.later_assoc]

end Settled

namespace Escaping

variable {size : Nat} {ledger : Ledger} {first later events : List Event} {failure : Failure}
  {dropped dropped' : Option Failure}

/-- A failure arises in a text. -/
theorem raised (h : ledger.pending = none) (label : String) {left : List Char}
    (hle : left.length ≤ size) :
    Escaping size ledger [.raised (Rest.ofList left).left label]
      ⟨(Rest.ofList left).left, [label]⟩ none := by
  refine ⟨⟨⟨h, ?_, ?_⟩, trivial⟩, ledger, h, (Failure.later_none _).symm, rfl⟩
  · rw [Rest.left_ofList]
    exact Int.natCast_nonneg _
  · rw [Rest.left_ofList]
    exact Int.ofNat_le.mpr hle

theorem after (h : Settled size ledger first dropped)
    (hlater : Escaping size (ledger.follow first) later failure dropped') :
    Escaping size ledger (first ++ later) failure (Failure.later dropped dropped') := by
  rcases hlater.former with ⟨former, hpending, hrecord, hfollow⟩
  refine ⟨Ledger.orderly_append.mpr ⟨h.orderly, hlater.orderly⟩, former, hpending, ?_, ?_⟩
  · rw [hrecord, h.record, Failure.later_assoc]
  · rw [Ledger.follow_append, hfollow]

/-- The failure leaves a production. -/
theorem labeled (h : Escaping size ledger events failure dropped) (label : String) :
    Escaping size ledger (events ++ [.labeled label]) (failure.within label) dropped := by
  rcases h.former with ⟨former, hpending, hrecord, hfollow⟩
  refine ⟨Ledger.orderly_append.mpr ⟨h.orderly, ?_, trivial⟩, former, hpending, hrecord, ?_⟩
  · rw [hfollow]
    exact Option.some_ne_none _
  · rw [Ledger.follow_append, hfollow]
    exact Ledger.note_labeled_raise failure label

/-- The failure is dropped, and it may be on record from then on. -/
theorem drop (h : Escaping size ledger events failure dropped) :
    Settled size ledger (events ++ [.dropped]) (Failure.later dropped (some failure)) := by
  rcases h.former with ⟨former, hpending, hrecord, hfollow⟩
  refine ⟨Ledger.orderly_append.mpr ⟨h.orderly, ?_, trivial⟩, ?_, ?_⟩
  · rw [hfollow]
    exact Option.some_ne_none _
  · rw [Ledger.follow_append]
    rfl
  · rw [Ledger.follow_append, hfollow]
    exact (Ledger.record_raise failure).trans (by rw [hrecord, Failure.later_assoc])

end Escaping

/-- Events of a parser that comes to a result. -/
inductive Leads (size : Nat) (ledger : Ledger) (events : List Event) : Result α → Prop where
  | done {value : α} {rest : Rest} {dropped : Option Failure}
      (h : Settled size ledger events dropped) (hrest : InText size rest) :
      Leads size ledger events ⟨.done value rest, dropped⟩
  | failed {failure : Failure} {dropped : Option Failure}
      (h : Escaping size ledger events failure dropped) :
      Leads size ledger events ⟨.failed failure, dropped⟩
  | aborted {reason : Abort} {dropped : Option Failure}
      (h : Settled size ledger events dropped) :
      Leads size ledger events ⟨.aborted reason, dropped⟩

namespace Leads

variable {size : Nat} {ledger : Ledger} {first later events : List Event}
  {dropped : Option Failure}

theorem after {result : Result α} (h : Settled size ledger first dropped)
    (hlater : Leads size (ledger.follow first) later result) :
    Leads size ledger (first ++ later) (result.after dropped) := by
  cases hlater with
  | done hlater hrest => exact .done (h.append hlater) hrest
  | failed hlater => exact .failed (.after h hlater)
  | aborted hlater => exact .aborted (h.append hlater)

theorem cons {result : Result (List α)} (value : α) (h : Leads size ledger events result) :
    Leads size ledger events (result.cons value) := by
  cases h with
  | done h hrest => exact .done h hrest
  | failed h => exact .failed h
  | aborted h => exact .aborted h

/-- A loop goes on behind an item that took some characters. -/
theorem more {result : Result (List α)} {rest : Rest} {bound : Nat} (value : α)
    (h : Settled size ledger first dropped) (hrest : InText size rest)
    (hloop : rest.size < bound → Leads size (ledger.follow first) later result) :
    Leads size ledger (if _progress : rest.size < bound then first ++ later else first)
      (if _progress : rest.size < bound then (result.after dropped).cons value
        else ⟨.done [value] rest, dropped⟩) := by
  by_cases hlt : rest.size < bound
  · rw [dif_pos hlt, dif_pos hlt]
    exact .cons value (.after h (hloop hlt))
  · rw [dif_neg hlt, dif_neg hlt]
    exact .done h hrest

end Leads

/-- The session is at a place of its text and has the record of a ledger. -/
structure Session.Follows (size : Nat) (ledger : Ledger) (session : Session) : Prop where
  pending : ledger.pending = none
  record : session.furthest = ledger.record
  rest : InText size session.rest

namespace Session.Follows

variable {size : Nat} {ledger : Ledger} {session : Session}

/-- Who sees the session sees the record of the ledger. -/
theorem seen (h : session.Follows size ledger) :
    Settled size ledger [.seen session.furthest] none :=
  ⟨⟨⟨h.pending, h.record⟩, trivial⟩, h.pending, (Failure.later_none _).symm⟩

/-- The session goes on at another place. -/
theorem moveTo (h : session.Follows size ledger) {events : List Event} {dropped : Option Failure}
    (hevents : Settled size ledger events dropped) {rest : Rest} (hrest : InText size rest) :
    (Place.moveTo session rest dropped).Follows size (ledger.follow events) := by
  refine ⟨hevents.pending, ?_, hrest⟩
  rw [hevents.record, ← h.record]
  rfl

end Session.Follows

namespace Assembly

variable {size : Nat} {ledger : Ledger} {session : Session}

/-- A primitive sees the record, and it raises the failure that it ends in. -/
theorem leads_primitive {p : Parser α} (hp : IsPrimitive p) (h : session.Follows size ledger) :
    Leads size ledger ((Assembly.primitive p hp).events session)
      ((Assembly.primitive p hp).parser session) := by
  rcases h.rest with ⟨text, htext, hle⟩
  have hresult := hp.result text
  rw [parser, Parser.lift, events]
  change Leads size ledger _ (p session.rest)
  rw [htext]
  generalize p (.ofList text) = result at hresult
  cases hresult with
  | done value hleft => exact .done h.seen ⟨_, rfl, Nat.le_trans hleft hle⟩
  | failed label hleft =>
      exact .failed (.after h.seen (.raised h.pending label (Nat.le_trans hleft hle)))
  | aborted reason => exact .aborted h.seen

/-- Where the first step is done, the second one goes on with the events. -/
theorem leads_bind {first : Assembly α} {next : α → Assembly β}
    (hfirst : Leads size ledger (first.events session) (first.parser session))
    (hnext : ∀ value {ledger session}, session.Follows size ledger →
      Leads size ledger ((next value).events session) ((next value).parser session))
    (h : session.Follows size ledger) :
    Leads size ledger ((first.bind next).events session) ((first.bind next).parser session) := by
  rw [parser, Parser.bind_state, events]
  generalize first.parser session = result at hfirst
  cases hfirst with
  | done hevents hrest => exact .after hevents (hnext _ (h.moveTo hevents hrest))
  | failed hevents => exact .failed hevents
  | aborted hevents => exact .aborted hevents

theorem leads_labeled {label : String} {inner : Assembly α}
    (hinner : Leads size ledger (inner.events session) (inner.parser session)) :
    Leads size ledger ((inner.labeled label).events session)
      ((inner.labeled label).parser session) := by
  rw [parser, Parser.labeled, events]
  generalize inner.parser session = result at hinner
  cases hinner with
  | done hevents hrest => exact .done hevents hrest
  | failed hevents => exact .failed (hevents.labeled label)
  | aborted hevents => exact .aborted hevents

/-- Where the first alternative fails, its failure is dropped. -/
theorem leads_orElse {first second : Assembly α}
    (hfirst : Leads size ledger (first.events session) (first.parser session))
    (hsecond : ∀ {ledger session}, session.Follows size ledger →
      Leads size ledger (second.events session) (second.parser session))
    (h : session.Follows size ledger) :
    Leads size ledger ((first.orElse second).events session)
      ((first.orElse second).parser session) := by
  change Leads size ledger _ (Parser.orElse first.parser second.parser session)
  rw [Parser.orElse, events]
  generalize first.parser session = result at hfirst
  cases hfirst with
  | done hevents hrest => exact .done hevents hrest
  | failed hevents =>
      have hdropped := Leads.after hevents.drop (hsecond (h.moveTo hevents.drop h.rest))
      rw [List.append_assoc] at hdropped
      exact hdropped
  | aborted hevents => exact .aborted hevents

section

variable {item : Assembly α}

/-- A repetition drops the failure that it ends with. -/
theorem leads_many (hitem : ∀ {ledger session}, session.Follows size ledger →
      Leads size ledger (item.events session) (item.parser session))
    (h : session.Follows size ledger) :
    Leads size ledger (item.many.events session) (item.many.parser session) := by
  rw [parser, events]
  -- The induction is on what is left of the text, as for the loop itself.
  induction hsize : session.rest.size using Nat.strongRecOn generalizing ledger session with
  | _ n ih =>
      have hfirst := hitem h
      rw [Parser.many, loopEvents, if_pos rfl]
      generalize item.parser session = result at hfirst
      cases hfirst with
      | @done value rest dropped hevents hrest =>
          exact .more value hevents hrest fun hlt =>
            ih _ (hsize ▸ hlt) (h.moveTo hevents hrest) rfl
      | failed hevents => exact .done hevents.drop h.rest
      | aborted hevents => exact .aborted hevents

/-- A repetition with an item in sight insists on it. -/
theorem leads_repeatWhile {inSight : Option Char → Bool}
    (hitem : ∀ {ledger session}, session.Follows size ledger →
      Leads size ledger (item.events session) (item.parser session))
    (h : session.Follows size ledger) :
    Leads size ledger ((item.repeatWhile inSight).events session)
      ((item.repeatWhile inSight).parser session) := by
  rw [parser, events]
  induction hsize : session.rest.size using Nat.strongRecOn generalizing ledger session with
  | _ n ih =>
      have hfirst := hitem h
      rw [Parser.repeatWhile, loopEvents]
      change Leads size ledger _ (if inSight session.rest.chars.head? then _ else _)
      split
      · generalize item.parser session = result at hfirst
        cases hfirst with
        | @done value rest dropped hevents hrest =>
            exact .more value hevents hrest fun hlt =>
              ih _ (hsize ▸ hlt) (h.moveTo hevents hrest) rfl
        | failed hevents =>
            rw [List.append_nil]
            exact .failed hevents
        | aborted hevents => exact .aborted hevents
      · exact .done (.nil h.pending) h.rest

end

/-- Events lead to the record that the parser has. -/
theorem leads (a : Assembly α) (h : session.Follows size ledger) :
    Leads size ledger (a.events session) (a.parser session) := by
  induction a generalizing ledger session with
  | pure value => exact .done (.nil h.pending) h.rest
  | primitive p hp => exact leads_primitive hp h
  | bind first next ihfirst ihnext => exact leads_bind (ihfirst h) ihnext h
  | labeled label inner ih => exact leads_labeled (ih h)
  | orElse first second ihfirst ihsecond => exact leads_orElse (ihfirst h) ihsecond h
  | inspect choose ih => exact ih session.rest.chars.head? h
  | many item ih => exact leads_many ih h
  | repeatWhile inSight item ih => exact leads_repeatWhile ih h

end Assembly

end Reading

end Tptp
