import Tptp.Proofs.Bookkeeping.Grammar

/-!
# The History of a Text

A text is read by any parsers, one after the other, from any of its places.

Each turn starts at a place of the text and runs one parser. If the parser fails, the
failure is dropped by whoever took the turn, and so no failure is under way between two
turns. What the session has on record then is what the events so far come to, and the
next turn goes on from that. Reading a whole text is a history of one turn, which has to
reach the end. If it does not, the error tells the failure on record. That is not the one
that ended the turn if another one, which was dropped before, got further.

## Main definitions

* `Turn`, `Turn.whole`: A parser and the place where it starts.
* `History`, `History.of`: What turns come to, and what happens to failures meanwhile.

## Theorems

* `History.Kept.take`: A turn keeps the record.
* `exists_furthest_of_escaped`: The error tells the failure on record.
* `failures_bookkept`: The record of failures, in any history of a text.
-/

namespace Tptp

namespace Reading

variable {α : Type}

/-- A parser that has to reach the end of the text. -/
def Assembly.whole (a : Assembly α) : Assembly α :=
  a.bind fun value => (Assembly.primitive _ .endOfInput).bind fun _ => .pure value

theorem Assembly.parser_whole (a : Assembly α) :
    a.whole.parser = a.parser <* Parser.lift Parser.endOfInput := rfl

/-- A parser and a place of a text where it is to start. -/
structure Turn (text : List Char) where
  {Value : Type}
  assembly : Assembly Value
  position : Nat
  position_le : position ≤ text.length

/-- The turn that reads all of the text. -/
def Turn.whole (text : List Char) (a : Assembly α) : Turn text :=
  ⟨a.whole, 0, Nat.zero_le _⟩

/-- A text that has been read in turns. -/
structure History where
  session : Session
  events : List Event

namespace History

variable {text : List Char}

/-- A parser is run. If it fails, its failure is dropped. -/
def run (history : History) (a : Assembly α) : History :=
  let events := history.events ++ a.events history.session
  match history.session.step a.parser with
  | (.failed _, session) => ⟨session, events ++ [.dropped]⟩
  | (_, session) => ⟨session, events⟩

/-- A turn starts at its place. -/
def take (history : History) (turn : Turn text) : History :=
  run ⟨(history.session.step (Session.seek turn.position)).2, history.events⟩ turn.assembly

theorem session_run (history : History) (a : Assembly α) :
    (history.run a).session = (history.session.step a.parser).2 := by
  rw [run]
  split
  next heq => rw [heq]
  next heq => rw [heq]

/-- What turns come to, one after the other. -/
def of (turns : List (Turn text)) : History :=
  turns.foldl take ⟨.start text, []⟩

/-- The session has the record that the events come to. -/
structure Kept (text : List Char) (history : History) : Prop where
  text_eq : history.session.text = text
  orderly : Ledger.Orderly text.length .empty history.events
  follows : history.session.Follows text.length (.after history.events)

namespace Kept

variable {history : History}

/-- Events are added, and the session goes on with the record that they lead to. -/
theorem extend (h : history.Kept text) {events : List Event} {dropped : Option Failure}
    (hevents : Settled text.length (.after history.events) events dropped) {rest : Rest}
    (hrest : InText text.length rest) :
    Kept text ⟨Place.moveTo history.session rest dropped, history.events ++ events⟩ := by
  refine ⟨h.text_eq, Ledger.orderly_append.mpr ⟨h.orderly, hevents.orderly⟩, ?_⟩
  rw [Ledger.after, Ledger.follow_append]
  exact h.follows.moveTo hevents hrest

/-- A parser that is run keeps the record. -/
theorem run (h : history.Kept text) (a : Assembly α) : (history.run a).Kept text := by
  have hleads := a.leads h.follows
  rw [History.run, Session.step]
  generalize a.parser history.session = result at hleads
  cases hleads with
  | done hevents hrest => exact h.extend hevents hrest
  | failed hevents =>
      have hdropped := h.extend hevents.drop h.follows.rest
      rw [← List.append_assoc] at hdropped
      exact hdropped
  | aborted hevents => exact h.extend hevents h.follows.rest

/-- Going to another place of the text keeps the record. -/
theorem seek (h : history.Kept text) {position : Nat} (hle : position ≤ text.length) :
    Kept text ⟨(history.session.step (Session.seek position)).2, history.events⟩ := by
  have hstep : (history.session.step (Session.seek position)).2 =
      Place.moveTo history.session (Rest.ofPosition text position) none := by
    rw [Session.step, Session.seek, h.text_eq]
  -- No event belongs to it.
  have hplaced := h.extend (.nil h.follows.pending)
    ⟨_, Rest.ofPosition_of_le hle, (List.drop_suffix position text).length_le⟩
  rw [List.append_nil] at hplaced
  rw [hstep]
  exact hplaced

/-- A turn keeps the record. -/
theorem take (h : history.Kept text) (turn : Turn text) : (history.take turn).Kept text :=
  (h.seek turn.position_le).run turn.assembly

end Kept

theorem kept_of (turns : List (Turn text)) : (of turns).Kept text := by
  induction turns using List.reverseRecOn with
  | nil => exact ⟨rfl, trivial, ⟨rfl, rfl, text, rfl, Nat.le_refl _⟩⟩
  | append_singleton turns turn ih =>
      rw [of, List.foldl_append]
      exact ih.take turn

/-- Reading a whole text is a history of one turn. -/
theorem of_whole (text : List Char) (a : Assembly α) :
    of [Turn.whole text a] = run ⟨.start text, []⟩ a.whole := by
  have hplaced : ((Session.start text).step (Session.seek 0)).2 = .start text := by
    rw [Session.step, Session.seek]
    exact congrArg (Session.mk text · none) (Rest.ofPosition_zero text)
  rw [of, List.foldl_cons, List.foldl_nil, take]
  exact congrArg (fun session => run ⟨session, []⟩ a.whole) hplaced

end History

/-- Of any failures one is to be reported: the last one, or another one that got further. -/
theorem Failure.exists_later (former : Option Failure) (failure : Failure) :
    ∃ furthest, Failure.later former (some failure) = some furthest := by
  rcases former with _ | former
  · exact ⟨failure, rfl⟩
  · rw [Failure.later]
    split
    · exact ⟨failure, rfl⟩
    · exact ⟨former, rfl⟩

/-- If a failure escapes from a parser, the error tells the failure on record, whichever it
    is. -/
theorem exists_furthest_of_escaped {text : String} {a : Assembly α} {failure : Failure}
    (h : (a.whole.parser (.start text.toList)).outcome = .failed failure) :
    ∃ furthest, (History.of [Turn.whole text.toList a]).session.furthest = some furthest ∧
      readAll a.parser text = .error (.mismatch (.ofFailure text.toList furthest)) := by
  rcases hresult : a.whole.parser (.start text.toList) with ⟨outcome, dropped⟩
  rw [hresult] at h
  subst h
  -- Nothing is on record in the beginning, so what the parser dropped is.
  have hstep : (Session.start text.toList).step a.whole.parser =
      (.failed failure, ⟨text.toList, .ofList text.toList,
        Failure.later none (Failure.later dropped (some failure))⟩) := by
    rw [Session.step, hresult]
    rfl
  rw [Failure.none_later] at hstep
  rcases Failure.exists_later dropped failure with ⟨furthest, hfurthest⟩
  rw [hfurthest] at hstep
  refine ⟨furthest, ?_, ?_⟩
  · rw [History.of_whole, History.session_run]
    exact congrArg (·.2.furthest) hstep
  · rw [readAll, ← Assembly.parser_whole, hstep]
    rfl

/-- The record of failures, in any history of a text: at each moment it is the latest of the
    failures with the greatest position, with the labels that it has collected. If a failure
    escapes when the text is read as a whole, the error has the place and the labels of the
    one on record. All parsers that are made of primitives and productions can take turns. -/
theorem failures_bookkept (text : String) :
    (∀ turns : List (Turn text.toList),
      Bookkept text.toList.length (History.of turns).events ∧
        (History.of turns).session.furthest = (Ledger.after (History.of turns).events).record) ∧
    (∀ {α : Type} (a : Assembly α) (escaped : Failure),
      (a.whole.parser (.start text.toList)).outcome = .failed escaped →
        ∃ furthest,
          (Ledger.after (History.of [Turn.whole text.toList a]).events).record = some furthest ∧
            readAll a.parser text = .error (.mismatch (.ofPosition text.toList
              (positionOf text.toList furthest.left) furthest.labels))) ∧
    ∀ {α : Type} {p : ParserOn Session α}, IsComposite p → ∃ a : Assembly α, a.parser = p := by
  refine ⟨fun turns => ?_, fun a escaped h => ?_, fun hp => hp.isAssembled⟩
  · have hkept := History.kept_of turns
    exact ⟨hkept.orderly.bookkept, hkept.follows.record⟩
  · rcases exists_furthest_of_escaped h with ⟨furthest, hrecord, hread⟩
    rw [(History.kept_of _).follows.record] at hrecord
    exact ⟨furthest, hrecord, hread⟩

/-- A sum, or else a letter. -/
def sumOrLetter : Assembly String :=
  .orElse
    (.labeled "sum" (.bind (.primitive (Parser.character "a") (.sign _ _)) fun _ =>
      .primitive (Parser.character "+") (.sign _ _)))
    (.primitive (Parser.character "b") (.sign _ _))

/-- The letter is missed last, but the sum got further, and its failure is the error. -/
theorem failures_bookkept_sumOrLetter :
    (sumOrLetter.whole.parser (.start "ax".toList)).outcome = .failed ⟨2, ["character b"]⟩ ∧
      ∃ furthest,
        (Ledger.after (History.of [Turn.whole "ax".toList sumOrLetter]).events).record =
          some furthest ∧
          readAll sumOrLetter.parser "ax" = .error (.mismatch (.ofPosition "ax".toList
            (positionOf "ax".toList furthest.left) furthest.labels)) ∧
            positionOf "ax".toList furthest.left = 1 ∧
              furthest.labels = ["character +", "sum"] := by
  have hescaped : (sumOrLetter.whole.parser (.start "ax".toList)).outcome =
      .failed ⟨2, ["character b"]⟩ := rfl
  rcases (failures_bookkept "ax").2.1 sumOrLetter _ hescaped with ⟨furthest, hrecord, hread⟩
  have herror : readAll sumOrLetter.parser "ax" =
      .error (.mismatch (.ofPosition "ax".toList 1 ["character +", "sum"])) := rfl
  have hsame := ReadError.mismatch.inj (Except.error.inj (hread.symm.trans herror))
  exact ⟨hescaped, furthest, hrecord, hread, congrArg Mismatch.position hsame,
    congrArg Mismatch.labels hsame⟩

end Reading

end Tptp
