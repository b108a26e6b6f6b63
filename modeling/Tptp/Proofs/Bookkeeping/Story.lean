import Tptp.Proofs.Bookkeeping.Ledger

/-!
# What Happens to a Failure

The labels of a failure, and when they are final.

Events are orderly if no failure arises while another one is under way, and only a failure
under way gets labels and is dropped. Then everything that is about one failure stands
together: it arises with a label, the productions that it leaves put theirs on it, and what
comes next is about something else. The labels on record are those, however many failures
have arisen since, and whether or not the one under way is the one on record.

## Main definitions

* `Ledger.Fits`, `Ledger.Orderly`: Events that can happen one after the other.
* `Story`, `Told`: What happened to a failure.
* `Bookkept`: All that holds of the record of failures.

## Theorems

* `Ledger.Orderly.told`: The labels of a failure.
* `Ledger.Orderly.bookkept`: Orderly events are bookkept.
-/

namespace Tptp

namespace Reading

namespace Ledger

/-- An event can happen now: a failure arises at a place of a text of some length while no other
    one is under way, labels and drops are for one under way, and what is seen is on record. -/
def Fits (size : Nat) (ledger : Ledger) : Event → Prop
  | .raised left _ => ledger.pending = none ∧ 0 ≤ left ∧ left ≤ size
  | .labeled _ => ledger.pending ≠ none
  | .dropped => ledger.pending ≠ none
  | .seen record => ledger.pending = none ∧ record = ledger.record

/-- The events can happen one after the other. -/
def Orderly (size : Nat) : Ledger → List Event → Prop
  | _, [] => True
  | ledger, e :: events => Fits size ledger e ∧ Orderly size (ledger.note e) events

theorem orderly_append {size : Nat} {ledger : Ledger} {first later : List Event} :
    Orderly size ledger (first ++ later) ↔
      Orderly size ledger first ∧ Orderly size (ledger.follow first) later := by
  induction first generalizing ledger with
  | nil => simp only [List.nil_append, Orderly, true_and, follow_nil]
  | cons e first ih =>
      rw [List.cons_append, Orderly, Orderly, ih, follow_cons, and_assoc]

theorem orderly_concat {size : Nat} {events : List Event} {e : Event} :
    Orderly size empty (events ++ [e]) ↔
      Orderly size empty events ∧ Fits size (after events) e := by
  rw [orderly_append, Orderly, Orderly, and_true, after]

end Ledger

/-- The failure of a number arose at its place with the first of its labels, and one production
    after the other put another label on it. Then there were other events. -/
def Story (events : List Event) (n : Nat) (failure : Failure) (others : List Event) : Prop :=
  ∃ before label labels,
    events = before ++ (.raised failure.left label :: labels.map .labeled) ++ others ∧
      (calls before).length = n ∧ failure.labels = label :: labels

namespace Story

variable {events others : List Event} {n : Nat} {failure : Failure}

/-- The story of a failure goes on with events that do not concern it. -/
theorem append (h : Story events n failure others) (later : List Event) :
    Story (events ++ later) n failure (others ++ later) := by
  rcases h with ⟨before, label, labels, rfl, hn, hlabels⟩
  exact ⟨before, label, labels, List.append_assoc _ _ _, hn, hlabels⟩

/-- The story of a failure under way goes on with another label. -/
theorem labeled (h : Story events n failure []) (label : String) :
    Story (events ++ [.labeled label]) n (failure.within label) [] := by
  rcases h with ⟨before, first, labels, rfl, hn, hlabels⟩
  refine ⟨before, first, labels ++ [label], ?_, hn, ?_⟩
  · rw [List.map_append, List.append_nil, List.append_nil, List.append_assoc]
    rfl
  · rw [Failure.labels, Failure.within, List.reverse_cons, ← Failure.labels, hlabels,
      List.cons_append]

end Story

/-- The labels of every failure are those that stand right behind it, and there are no other
    events behind it exactly if it is under way. -/
def Told (events : List Event) (ledger : Ledger) : Prop :=
  ∀ n failure, ledger.made[n]? = some failure →
    ∃ others, Story events n failure others ∧ (∀ label, others.head? ≠ some (.labeled label)) ∧
      (others = [] ↔ ledger.pending = some n)

namespace Told

variable {size : Nat} {events : List Event} {ledger : Ledger}

/-- What is told of a failure that is not under way goes on with any event. -/
theorem concat {n : Nat} {failure : Failure} (h : Told events ledger)
    (hmade : ledger.made[n]? = some failure) {e : Event}
    (he : ledger.pending = some n → ∀ label, e ≠ .labeled label) :
    ∃ others, Story (events ++ [e]) n failure others ∧
      (∀ label, others.head? ≠ some (.labeled label)) ∧ others ≠ [] := by
  rcases h n failure hmade with ⟨others, hstory, hhead, hpending⟩
  refine ⟨_, hstory.append [e], fun label => ?_, List.append_ne_nil_of_right_ne_nil _ nofun⟩
  rcases others with _ | ⟨first, others⟩
  · exact fun heq => he (hpending.mp rfl) label (Option.some.inj heq)
  · exact hhead label

/-- A failure arises. -/
theorem raise (h : Told events ledger) (hsound : ledger.Sound (calls events)) (left : Int)
    (label : String) :
    Told (events ++ [.raised left label]) (ledger.raise ⟨left, [label]⟩) := by
  intro n failure hmade
  rcases getElem?_concat_cases hmade with ⟨hlt, hmade⟩ | ⟨hn, rfl⟩
  · rcases h.concat (e := .raised left label) hmade fun _ _ => nofun with
      ⟨others, hstory, hhead, hne⟩
    refine ⟨others, hstory, hhead, iff_of_false hne fun heq => ?_⟩
    exact Nat.ne_of_gt hlt (Option.some.inj heq)
  · refine ⟨[], ⟨events, label, [], ?_, ?_, rfl⟩, fun _ => nofun, iff_of_true rfl ?_⟩
    · rw [List.append_nil, List.map_nil]
    · rw [hn, ← hsound.made, List.length_map]
    · rw [hn, Ledger.raise]

/-- The failure under way gets a label. -/
theorem label (h : Told events ledger) {under : Nat} (hunder : ledger.pending = some under)
    (label : String) : Told (events ++ [.labeled label]) (ledger.note (.labeled label)) := by
  intro n failure hmade
  rw [Ledger.note_labeled hunder] at hmade ⊢
  rw [List.getElem?_modify, Option.map_eq_map] at hmade
  rcases Option.map_eq_some_iff.mp hmade with ⟨former, hformer, hfailure⟩
  by_cases hn : under = n
  · rw [if_pos hn] at hfailure
    rcases h n former hformer with ⟨others, hstory, -, hpending⟩
    rw [hpending.mpr (hn ▸ hunder)] at hstory
    exact ⟨[], hfailure ▸ hstory.labeled label, fun _ => nofun, iff_of_true rfl (hn ▸ hunder)⟩
  · rw [if_neg hn] at hfailure
    have hnot : ledger.pending ≠ some n := fun heq => hn (Option.some.inj (hunder ▸ heq))
    rcases h.concat hformer fun heq => absurd heq hnot with ⟨others, hstory, hhead, hne⟩
    exact ⟨others, hfailure ▸ hstory, hhead, iff_of_false hne hnot⟩

/-- An event that can happen is told of the failure that it is about. -/
theorem note (h : Told events ledger) (hsound : ledger.Sound (calls events)) {e : Event}
    (hfits : ledger.Fits size e) : Told (events ++ [e]) (ledger.note e) := by
  cases e with
  | raised left label => exact h.raise hsound left label
  | labeled label =>
      rcases Option.ne_none_iff_exists'.mp hfits with ⟨under, hunder⟩
      exact h.label hunder label
  | dropped =>
      intro n failure hmade
      rcases h.concat (e := .dropped) hmade fun _ _ => nofun with ⟨others, hstory, hhead, hne⟩
      exact ⟨others, hstory, hhead, iff_of_false hne nofun⟩
  | seen record =>
      intro n failure hmade
      rcases h.concat (e := .seen record) hmade fun _ _ => nofun with
        ⟨others, hstory, hhead, hne⟩
      exact ⟨others, hstory, hhead, iff_of_false hne (hfits.1 ▸ nofun)⟩

end Told

/-- The labels of every failure are told by orderly events. -/
theorem Ledger.Orderly.told {size : Nat} {events : List Event}
    (h : Ledger.Orderly size .empty events) : Told events (.after events) := by
  induction events using List.reverseRecOn with
  | nil => exact fun n failure hmade => absurd hmade nofun
  | append_singleton events e ih =>
      rcases Ledger.orderly_concat.mp h with ⟨hevents, hfits⟩
      rw [Ledger.after_concat]
      exact (ih hevents).note (Ledger.sound_after events) hfits

/-- Failures arise at places of the text only. -/
theorem Ledger.Orderly.mem_calls {size : Nat} {ledger : Ledger} {events : List Event}
    (h : Ledger.Orderly size ledger events) {place : Int} (hplace : place ∈ calls events) :
    0 ≤ place ∧ place ≤ size := by
  induction events generalizing ledger with
  | nil => exact absurd hplace List.not_mem_nil
  | cons e events ih =>
      rcases List.mem_filterMap.mp hplace with ⟨event, hevent, hcall⟩
      rcases List.mem_cons.mp hevent with rfl | hevent
      · cases event with
        | raised left label => exact Option.some.inj hcall ▸ h.1.2
        | labeled label => exact absurd hcall nofun
        | dropped => exact absurd hcall nofun
        | seen record => exact absurd hcall nofun
      · exact ih h.2 (List.mem_filterMap.mpr ⟨event, hevent, hcall⟩)

/-- What holds of the record of failures at each moment of reading a text of some length. A
    moment is given by the events before it, and the places of failures are numbers that fall
    as reading goes on. -/
structure Bookkept (size : Nat) (events : List Event) : Prop where
  /-- The ledger has all failures that have arisen. -/
  made : ∀ now, now <+: events → (Ledger.after now).made.map Failure.left = calls now
  /-- The one on record is the latest of those with the greatest position. -/
  furthest : ∀ now, now <+: events →
    ((Ledger.after now).furthest = none ↔ calls now = []) ∧
      ∀ n, (Ledger.after now).furthest = some n → IsFurthest (calls now) n
  /-- It changes only when a failure arises, not when one leaves a production or is dropped. -/
  backtracking : ∀ now e, now ++ [e] <+: events → e.call? = none →
    (Ledger.after (now ++ [e])).furthest = (Ledger.after now).furthest
  /-- Its position lies in the text. -/
  within : ∀ now failure, now <+: events → (Ledger.after now).record = some failure →
    0 ≤ failure.left ∧ failure.left ≤ size
  /-- Its position never decreases. -/
  position : ∀ now more failure, now ++ more <+: events →
    (Ledger.after now).record = some failure →
      ∃ later, (Ledger.after (now ++ more)).record = some later ∧ later.left ≤ failure.left
  /-- What a primitive finds on record is what the ledger has there. -/
  seen : ∀ now record, now ++ [.seen record] <+: events → record = (Ledger.after now).record
  /-- The labels of a failure are the one that it arose with and one for each production that
      it has left. -/
  labels : ∀ now n failure, now <+: events → (Ledger.after now).made[n]? = some failure →
    ∃ others, Story now n failure others ∧ ∀ label, others.head? ≠ some (.labeled label)
  /-- Once a failure is dropped, it never changes again. -/
  kept : ∀ now more n, now ++ .dropped :: more <+: events → n < (Ledger.after now).made.length →
    (Ledger.after (now ++ .dropped :: more)).made[n]? = (Ledger.after now).made[n]?

/-- Orderly events are bookkept. -/
theorem Ledger.Orderly.bookkept {size : Nat} {events : List Event}
    (h : Ledger.Orderly size .empty events) : Bookkept size events := by
  have hstart : ∀ {now}, now <+: events → Ledger.Orderly size .empty now := by
    rintro now ⟨more, rfl⟩
    exact (Ledger.orderly_append.mp h).1
  constructor
  case made => exact fun now _ => (Ledger.sound_after now).made
  case furthest =>
    exact fun now _ => ⟨(Ledger.sound_after now).none_iff, (Ledger.sound_after now).furthest⟩
  case backtracking =>
    intro now e _ he
    rw [Ledger.after_concat]
    exact Ledger.furthest_note he
  case within =>
    intro now failure hnow hrecord
    rcases (Ledger.sound_after now).record_le hrecord with ⟨n, -, hplace, -⟩
    exact (hstart hnow).mem_calls (List.mem_of_getElem? hplace)
  case position =>
    intro now more failure _ hrecord
    rw [Ledger.after, Ledger.follow_append]
    exact Ledger.left_record_follow hrecord more
  case seen =>
    intro now record hnow
    exact (Ledger.orderly_concat.mp (hstart hnow)).2.2
  case labels =>
    intro now n failure hnow hmade
    rcases (hstart hnow).told n failure hmade with ⟨others, hstory, hhead, -⟩
    exact ⟨others, hstory, hhead⟩
  case kept =>
    intro now more n _ hn
    rw [Ledger.after, Ledger.follow_append]
    -- Behind the drop no failure is under way.
    exact Ledger.getElem?_follow (show n < ((Ledger.after now).note .dropped).made.length from hn)
      nofun more

end Reading

end Tptp
