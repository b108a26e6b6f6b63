import Mathlib.Data.List.Induction
import Tptp.Reading.Parser

/-!
# A Ledger of Failures

What becomes of failures, one event after the other.

A failure arises at a place with one label. On its way out it may get more of them, one
for each production it leaves, and then it is dropped. The failure on record is not a copy:
it is one of the failures that have arisen, and if it is the one under way, it grows with
it. A ledger keeps all failures in the order in which they arose, the number of the one on
record, and the number of the one that is under way.

The number on record is decided when a failure arises, by comparing it with the one on
record at that time. From this it follows that it is always the latest of those with the
greatest position, although no two other failures are ever compared. Nothing else changes
the number, and labels change no place.

## Main definitions

* `Event`, `calls`: What happens to failures, and where they arose.
* `Ledger`, `Ledger.after`: The failures so far.
* `IsFurthest`: The latest of the failures with the greatest position.

## Theorems

* `Ledger.record_raise`, `Ledger.note_labeled_raise`: A failure arises and is labeled.
* `Ledger.sound_after`: The failure on record is the latest one that got furthest.
* `Ledger.left_record_follow`, `Ledger.getElem?_follow`: Places on record and final labels.
-/

namespace Tptp

namespace Reading

/-- What happens while a text is read, as far as failures are concerned. -/
inductive Event where
  /-- A failure arises at a place, with a label. -/
  | raised (left : Int) (label : String)
  /-- The failure under way leaves a production. -/
  | labeled (label : String)
  /-- The failure under way is dropped. -/
  | dropped
  /-- What is on record is seen. -/
  | seen (record : Option Failure)

/-- The place of a failure that arises. -/
def Event.call? : Event → Option Int
  | .raised left _ => some left
  | _ => none

/-- The places at which failures arose, one after the other. -/
def calls (events : List Event) : List Int :=
  events.filterMap Event.call?

theorem calls_concat (events : List Event) (e : Event) :
    calls (events ++ [e]) = calls events ++ e.call?.toList := by
  rw [calls, List.filterMap_append]
  cases e <;> rfl

/-- All failures so far. -/
structure Ledger where
  /-- The failures, in the order in which they arose. -/
  made : List Failure
  /-- The number of the failure on record. -/
  furthest : Option Nat
  /-- The number of the failure under way. -/
  pending : Option Nat

namespace Ledger

/-- No failure has arisen. -/
def empty : Ledger :=
  ⟨[], none, none⟩

variable (ledger : Ledger)

/-- The failure on record. -/
def record : Option Failure :=
  ledger.furthest.bind (ledger.made[·]?)

/-- Nothing on record got further than to a place. -/
def reaches (left : Int) : Bool :=
  ledger.record.all fun former => decide (left ≤ former.left)

/-- A failure arises. It is put on record unless the one there got further. -/
def raise (failure : Failure) : Ledger where
  made := ledger.made ++ [failure]
  furthest := if ledger.reaches failure.left then some ledger.made.length else ledger.furthest
  pending := some ledger.made.length

/-- What an event changes. -/
def note : Event → Ledger
  | .raised left label => ledger.raise ⟨left, [label]⟩
  | .labeled label =>
    match ledger.pending with
    -- The failure that gets the label may be the one on record.
    | some n => { ledger with made := ledger.made.modify n (Failure.within label) }
    | none => ledger
  | .dropped => { ledger with pending := none }
  | .seen _ => ledger

/-- What events change, one after the other. -/
def follow (events : List Event) : Ledger :=
  events.foldl note ledger

/-- The ledger after events that started with no failure. -/
def after (events : List Event) : Ledger :=
  empty.follow events

@[simp] theorem follow_nil : ledger.follow [] = ledger := rfl

@[simp] theorem follow_cons (e : Event) (events : List Event) :
    ledger.follow (e :: events) = (ledger.note e).follow events := rfl

@[simp] theorem follow_append (first later : List Event) :
    ledger.follow (first ++ later) = (ledger.follow first).follow later :=
  List.foldl_append

theorem after_concat (events : List Event) (e : Event) :
    after (events ++ [e]) = (after events).note e :=
  follow_append empty events [e]

variable {ledger}

/-- The failure under way gets a label. -/
theorem note_labeled {n : Nat} (h : ledger.pending = some n) (label : String) :
    ledger.note (.labeled label) =
      { ledger with made := ledger.made.modify n (Failure.within label) } := by
  simp only [note, h]

/-- Where no failure is under way, none gets a label. -/
theorem note_labeled_none (h : ledger.pending = none) (label : String) :
    ledger.note (.labeled label) = ledger := by
  simp only [note, h]

/-- The failure on record is one of those that arose. -/
theorem record_eq_some_iff {failure : Failure} :
    ledger.record = some failure ↔
      ∃ n, ledger.furthest = some n ∧ ledger.made[n]? = some failure :=
  Option.bind_eq_some_iff

/-- Of the failure on record and a new one the one to be reported is on record. -/
theorem record_raise (failure : Failure) :
    (ledger.raise failure).record = Failure.later ledger.record (some failure) := by
  by_cases hreaches : ledger.reaches failure.left = true
  · have hnew : (ledger.raise failure).record = some failure := by
      rw [record, raise, if_pos hreaches, Option.bind_some]
      exact List.getElem?_concat_length
    rw [hnew]
    rcases hrecord : ledger.record with _ | former
    · rw [Failure.none_later]
    · rw [reaches, hrecord, Option.all_some, decide_eq_true_eq] at hreaches
      rw [Failure.later, if_pos hreaches]
  · rcases hrecord : ledger.record with _ | former
    · rw [reaches, hrecord] at hreaches
      exact absurd rfl hreaches
    · rcases record_eq_some_iff.mp hrecord with ⟨n, hn, hformer⟩
      rcases List.getElem?_eq_some_iff.mp hformer with ⟨hlt, -⟩
      rw [record, raise, if_neg hreaches, hn, Option.bind_some, List.getElem?_append_left hlt,
        hformer]
      rw [reaches, hrecord, Option.all_some, decide_eq_true_eq] at hreaches
      rw [Failure.later, if_neg hreaches]

/-- A label for a failure that has just arisen could have been there from the start. -/
theorem note_labeled_raise (failure : Failure) (label : String) :
    (ledger.raise failure).note (.labeled label) = ledger.raise (failure.within label) := by
  have hmodify : (ledger.made ++ [failure]).modify ledger.made.length (Failure.within label) =
      ledger.made ++ [failure.within label] :=
    List.modifyTailIdx_add (List.modifyHead (Failure.within label)) 0 ledger.made [failure]
  rw [note_labeled (n := ledger.made.length) rfl]
  simp only [raise, hmodify]
  rfl

/-- A label leaves all failures where they are. -/
theorem map_left_modify (made : List Failure) (n : Nat) (label : String) :
    (made.modify n (Failure.within label)).map Failure.left = made.map Failure.left := by
  refine List.ext_getElem? fun m => ?_
  rw [List.getElem?_map, List.getElem?_map, List.getElem?_modify]
  rcases made[m]? with _ | failure
  · rfl
  · simp only [Option.map_eq_map, Option.map_some]
    split <;> rfl

end Ledger

/-- An item of a list with one more is one of the list, or the last one. -/
theorem getElem?_concat_cases {α : Type} {items : List α} {last item : α} {n : Nat}
    (h : (items ++ [last])[n]? = some item) :
    n < items.length ∧ items[n]? = some item ∨ n = items.length ∧ item = last := by
  rcases Nat.lt_or_ge n items.length with hlt | hge
  · rw [List.getElem?_append_left hlt] at h
    exact .inl ⟨hlt, h⟩
  · rcases List.getElem?_eq_some_iff.mp h with ⟨hlt, -⟩
    rw [List.length_append, List.length_singleton] at hlt
    have hn : n = items.length := by omega
    rw [hn, List.getElem?_concat_length, Option.some.injEq] at h
    exact .inr ⟨hn, h.symm⟩

/-- The number is that of the latest failure among those with the greatest position. -/
def IsFurthest (places : List Int) (n : Nat) : Prop :=
  ∃ place, places[n]? = some place ∧
    ∀ m other, places[m]? = some other → place ≤ other ∧ (n < m → place < other)

/-- A new failure got furthest if nothing before got further. -/
theorem isFurthest_concat {places : List Int} {left : Int} (h : ∀ place ∈ places, left ≤ place) :
    IsFurthest (places ++ [left]) places.length := by
  refine ⟨left, List.getElem?_concat_length, fun m other hother => ?_⟩
  rcases getElem?_concat_cases hother with ⟨hlt, hother⟩ | ⟨rfl, rfl⟩
  · refine ⟨h other (List.mem_of_getElem? hother), fun hlater => ?_⟩
    exact absurd hlater (Nat.not_lt_of_lt hlt)
  · exact ⟨Int.le_refl _, fun hlater => absurd hlater (Nat.lt_irrefl _)⟩

/-- A failure still got furthest if a new one did not get so far. -/
theorem IsFurthest.concat {places : List Int} {n : Nat} {left place : Int}
    (h : IsFurthest places n) (hplace : places[n]? = some place) (hlt : place < left) :
    IsFurthest (places ++ [left]) n := by
  rcases h with ⟨found, hfound, hothers⟩
  rw [hplace, Option.some.injEq] at hfound
  subst hfound
  rcases List.getElem?_eq_some_iff.mp hplace with ⟨hn, -⟩
  refine ⟨place, by rw [List.getElem?_append_left hn, hplace], fun m other hother => ?_⟩
  rcases getElem?_concat_cases hother with ⟨-, hother⟩ | ⟨-, rfl⟩
  · exact hothers m other hother
  · exact ⟨Int.le_of_lt hlt, fun _ => hlt⟩

namespace Ledger

/-- The ledger knows the failures at these places, and of them the one that got furthest. -/
structure Sound (places : List Int) (ledger : Ledger) : Prop where
  made : ledger.made.map Failure.left = places
  none_iff : ledger.furthest = none ↔ places = []
  furthest : ∀ n, ledger.furthest = some n → IsFurthest places n
  pending : ∀ n, ledger.pending = some n → n < ledger.made.length

variable {ledger : Ledger} {places : List Int}

/-- The failure on record got as far as any other. -/
theorem Sound.record_le (h : Sound places ledger) {failure : Failure}
    (hrecord : ledger.record = some failure) :
    ∃ n, ledger.furthest = some n ∧ places[n]? = some failure.left ∧
      ∀ place ∈ places, failure.left ≤ place := by
  rcases record_eq_some_iff.mp hrecord with ⟨n, hn, hfailure⟩
  have hplace : places[n]? = some failure.left := by
    rw [← h.made, List.getElem?_map, hfailure, Option.map_some]
  refine ⟨n, hn, hplace, fun other hother => ?_⟩
  rcases h.furthest n hn with ⟨place, hfound, hothers⟩
  rw [hplace, Option.some.injEq] at hfound
  rcases List.getElem?_of_mem hother with ⟨m, hm⟩
  exact hfound ▸ (hothers m other hm).1

/-- There is a failure on record if there is any. -/
theorem Sound.record_eq_none_iff (h : Sound places ledger) :
    ledger.record = none ↔ places = [] := by
  rw [← h.none_iff]
  constructor
  · intro hrecord
    rcases hfurthest : ledger.furthest with _ | n
    · rfl
    · rcases h.furthest n hfurthest with ⟨place, hplace, -⟩
      rw [← h.made, List.getElem?_map] at hplace
      rcases Option.map_eq_some_iff.mp hplace with ⟨failure, hfailure, -⟩
      rw [record_eq_some_iff.mpr ⟨n, hfurthest, hfailure⟩] at hrecord
      exact absurd hrecord (Option.some_ne_none failure)
  · intro hfurthest
    rw [record, hfurthest, Option.bind_none]

/-- A failure is compared with the one on record only, but it is compared with all. -/
theorem Sound.reaches_iff (h : Sound places ledger) {left : Int} :
    ledger.reaches left = true ↔ ∀ place ∈ places, left ≤ place := by
  rw [reaches]
  rcases hrecord : ledger.record with _ | former
  · rw [h.record_eq_none_iff.mp hrecord, Option.all_none]
    exact iff_of_true rfl fun _ hmem => absurd hmem List.not_mem_nil
  · rcases h.record_le hrecord with ⟨n, -, hplace, hle⟩
    rw [Option.all_some, decide_eq_true_eq]
    exact ⟨fun hleft place hmem => Int.le_trans hleft (hle place hmem),
      fun hall => hall former.left (List.mem_of_getElem? hplace)⟩

/-- If a failure is not put on record, the one there got further. -/
theorem Sound.exists_further (h : Sound places ledger) {left : Int}
    (hreaches : ¬ ledger.reaches left = true) :
    ∃ n place, ledger.furthest = some n ∧ places[n]? = some place ∧ place < left := by
  rcases hrecord : ledger.record with _ | former
  · rw [reaches, hrecord] at hreaches
    exact absurd rfl hreaches
  · rcases h.record_le hrecord with ⟨n, hn, hplace, -⟩
    rw [reaches, hrecord, Option.all_some, decide_eq_true_eq] at hreaches
    exact ⟨n, former.left, hn, hplace, Int.lt_of_not_ge hreaches⟩

/-- A failure that arises is known, and so is whether it got furthest. -/
theorem Sound.raise (h : Sound places ledger) (failure : Failure) :
    Sound (places ++ [failure.left]) (ledger.raise failure) := by
  have hmade : (ledger.raise failure).made.map Failure.left = places ++ [failure.left] := by
    rw [Ledger.raise, List.map_append, h.made, List.map_singleton]
  have hpending : ∀ n, (ledger.raise failure).pending = some n →
      n < (ledger.raise failure).made.length := by
    intro n hn
    rw [← Option.some.inj hn, Ledger.raise, List.length_append, List.length_singleton]
    exact Nat.lt_succ_self _
  by_cases hreaches : ledger.reaches failure.left = true
  · have hfurthest : (ledger.raise failure).furthest = some places.length := by
      rw [Ledger.raise, if_pos hreaches, ← h.made, List.length_map]
    refine ⟨hmade, ?_, fun n hn => ?_, hpending⟩
    · rw [hfurthest]
      exact iff_of_false (Option.some_ne_none _) (List.append_ne_nil_of_right_ne_nil _ nofun)
    · rw [hfurthest, Option.some.injEq] at hn
      exact hn ▸ isFurthest_concat (h.reaches_iff.mp hreaches)
  · rcases h.exists_further hreaches with ⟨n, place, hn, hplace, hlt⟩
    have hfurthest : (ledger.raise failure).furthest = some n := by
      rw [Ledger.raise, if_neg hreaches, hn]
    refine ⟨hmade, ?_, fun m hm => ?_, hpending⟩
    · rw [hfurthest]
      exact iff_of_false (Option.some_ne_none _) (List.append_ne_nil_of_right_ne_nil _ nofun)
    · rw [hfurthest, Option.some.injEq] at hm
      exact hm ▸ (h.furthest n hn).concat hplace hlt

/-- An event keeps the ledger sound. -/
theorem Sound.note (h : Sound places ledger) (e : Event) :
    Sound (places ++ e.call?.toList) (ledger.note e) := by
  have hnone : e.call? = none → places ++ e.call?.toList = places := by
    intro hcall
    rw [hcall, Option.toList_none, List.append_nil]
  cases e with
  | raised left label => exact h.raise ⟨left, [label]⟩
  | labeled label =>
      rw [hnone rfl]
      rcases hpending : ledger.pending with _ | n
      · rw [note_labeled_none hpending]
        exact h
      · rw [note_labeled hpending]
        refine ⟨(map_left_modify _ _ _).trans h.made, h.none_iff, h.furthest, fun m hm => ?_⟩
        rw [List.length_modify]
        exact h.pending m hm
  | dropped =>
      rw [hnone rfl]
      exact ⟨h.made, h.none_iff, h.furthest, fun n hn => absurd hn nofun⟩
  | seen record =>
      rw [hnone rfl]
      exact h

/-- After any events the failure on record is the latest of those that got furthest. -/
theorem sound_after (events : List Event) : Sound (calls events) (after events) := by
  induction events using List.reverseRecOn with
  | nil =>
      refine ⟨rfl, iff_of_true rfl rfl, fun _ hn => ?_, fun _ hn => ?_⟩
      · exact absurd hn nofun
      · exact absurd hn nofun
  | append_singleton events e ih =>
      rw [after_concat, calls_concat]
      exact ih.note e

/-- With a failure on record there will be one that got as far. -/
theorem left_record_note {failure : Failure} (h : ledger.record = some failure) (e : Event) :
    ∃ later, (ledger.note e).record = some later ∧ later.left ≤ failure.left := by
  cases e with
  | raised left label =>
      rw [note, record_raise, h, Failure.later]
      split
      · next hle => exact ⟨_, rfl, hle⟩
      · exact ⟨failure, rfl, Int.le_refl _⟩
  | labeled label =>
      rcases hpending : ledger.pending with _ | p
      · rw [note_labeled_none hpending]
        exact ⟨failure, h, Int.le_refl _⟩
      · rw [note_labeled hpending]
        rcases record_eq_some_iff.mp h with ⟨n, hn, hfailure⟩
        have hmodified := List.getElem?_modify (Failure.within label) p ledger.made n
        rw [hfailure, Option.map_eq_map, Option.map_some] at hmodified
        refine ⟨_, record_eq_some_iff.mpr ⟨n, hn, hmodified⟩, ?_⟩
        split <;> exact Int.le_refl _
  | dropped => exact ⟨failure, h, Int.le_refl _⟩
  | seen record => exact ⟨failure, h, Int.le_refl _⟩

/-- The position on record never decreases. -/
theorem left_record_follow {failure : Failure} (h : ledger.record = some failure)
    (events : List Event) :
    ∃ later, (ledger.follow events).record = some later ∧ later.left ≤ failure.left := by
  induction events generalizing ledger failure with
  | nil => exact ⟨failure, h, Int.le_refl _⟩
  | cons e events ih =>
      rcases left_record_note h e with ⟨middle, hmiddle, hle⟩
      rcases ih hmiddle with ⟨later, hlater, hle'⟩
      exact ⟨later, hlater, Int.le_trans hle' hle⟩

/-- Only a failure that arises is put on record. -/
theorem furthest_note {e : Event} (h : e.call? = none) :
    (ledger.note e).furthest = ledger.furthest := by
  cases e with
  | raised left label => exact absurd h (Option.some_ne_none left)
  | labeled label =>
      rw [note]
      split <;> rfl
  | dropped => rfl
  | seen record => rfl

/-- A failure that is not under way stays as it is, and it will not be under way again. -/
theorem getElem?_note {n : Nat} (hn : n < ledger.made.length) (hpending : ledger.pending ≠ some n)
    (e : Event) :
    (ledger.note e).made[n]? = ledger.made[n]? ∧ n < (ledger.note e).made.length ∧
      (ledger.note e).pending ≠ some n := by
  cases e with
  | raised left label =>
      refine ⟨List.getElem?_append_left hn, ?_, fun heq => ?_⟩
      · rw [note, raise, List.length_append]
        exact Nat.lt_add_right _ hn
      · exact absurd (Option.some.inj heq) (Nat.ne_of_gt hn)
  | labeled label =>
      rcases hp : ledger.pending with _ | p
      · rw [note_labeled_none hp]
        exact ⟨rfl, hn, hpending⟩
      · rw [note_labeled hp]
        refine ⟨List.getElem?_modify_ne _ _ fun heq => hpending (heq ▸ hp), ?_, hpending⟩
        rw [List.length_modify]
        exact hn
  | dropped => exact ⟨rfl, hn, nofun⟩
  | seen record => exact ⟨rfl, hn, hpending⟩

/-- A failure that is not under way never changes again. -/
theorem getElem?_follow {n : Nat} (hn : n < ledger.made.length)
    (hpending : ledger.pending ≠ some n) (events : List Event) :
    (ledger.follow events).made[n]? = ledger.made[n]? := by
  induction events generalizing ledger with
  | nil => rfl
  | cons e events ih =>
      rcases getElem?_note hn hpending e with ⟨hsame, hlt, hnot⟩
      exact (ih hlt hnot).trans hsame

end Ledger

end Reading

end Tptp
