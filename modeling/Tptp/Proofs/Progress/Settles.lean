import Tptp.Proofs.Outcome

/-!
# Settled Outcomes

What a parser comes to once the allowance for nesting is large enough.

A recursive production is a parser for every allowance, and with too small a one it gives up.
It settles for an outcome if it comes to that with all large allowances, and if the small
ones make no other difference than that it gives up for nesting. Then the outcome is the only
one there is, and any allowance with which the parser does not give up for nesting shows it.

## Main definitions

* `Settles`: With a large allowance a parser comes to an outcome.

## Theorems

* `Settles.eq_outcome`: There is no other outcome.
* `Settles.congr`: A parser does what another one does elsewhere.
* `Settles.goOn`: A parser goes on behind what another one has settled for.
* `Settles.stop`: A parser stops there.
* `Settles.spend`: One unit of the allowance may be spent.
-/

namespace Tptp

namespace Reading

variable {α β : Type}

/-- With a large allowance the parser comes to an outcome, and with a small one it does the
    same or gives up for nesting. -/
structure Settles (p : Nat → Parser α) (rest : Rest) (outcome : Outcome α) : Prop where
  ne_tooDeep : outcome ≠ .aborted .tooDeep
  exists_allowance : ∃ n, ∀ m, n ≤ m → (p m rest).outcome = outcome
  eq_or_tooDeep : ∀ n, (p n rest).outcome = outcome ∨ (p n rest).outcome = .aborted .tooDeep

namespace Settles

variable {p : Nat → Parser α} {q r : Nat → Parser β} {rest after : Rest} {o : Outcome α}
  {o' : Outcome β}

/-- Whatever a parser comes to with some allowance, but for nesting, is what it settles for. -/
theorem eq_outcome (h : Settles p rest o) {n : Nat} {other : Outcome α}
    (hn : (p n rest).outcome = other) (hne : other ≠ .aborted .tooDeep) : other = o := by
  rcases h.eq_or_tooDeep n with heq | hdeep
  · exact hn.symm.trans heq
  · exact absurd (hn.symm.trans hdeep) hne

/-- A parser that needs no allowance settles for its outcome. -/
theorem const {p : Parser α} (h : (p rest).outcome = o) (hne : o ≠ .aborted .tooDeep) :
    Settles (fun _ => p) rest o :=
  ⟨hne, ⟨0, fun _ _ => h⟩, fun _ => .inl h⟩

/-- A parser that does somewhere what another one does elsewhere settles for the same. -/
theorem congr {p' : Nat → Parser α} (h : Settles p after o)
    (heq : ∀ n, (p' n rest).outcome = (p n after).outcome) : Settles p' rest o := by
  refine ⟨h.ne_tooDeep, ?_, fun n => ?_⟩
  · rcases h.exists_allowance with ⟨n, hn⟩
    exact ⟨n, fun m hm => (heq m).trans (hn m hm)⟩
  · rw [heq n]
    exact h.eq_or_tooDeep n

/-- Where a parser has settled, a second one goes on, and the two of them settle for what the
    second one does. -/
theorem goOn (hp : Settles p rest o) (hq : Settles q after o')
    (hgo : ∀ n, (p n rest).outcome = o → (r n rest).outcome = (q n after).outcome)
    (hdeep : ∀ n, (p n rest).outcome = .aborted .tooDeep →
      (r n rest).outcome = .aborted .tooDeep) : Settles r rest o' := by
  refine ⟨hq.ne_tooDeep, ?_, fun n => ?_⟩
  · rcases hp.exists_allowance with ⟨n, hn⟩
    rcases hq.exists_allowance with ⟨n', hn'⟩
    refine ⟨n + n', fun m hm => ?_⟩
    rw [hgo m (hn m (by omega)), hn' m (by omega)]
  · rcases hp.eq_or_tooDeep n with h | h
    · rw [hgo n h]
      exact hq.eq_or_tooDeep n
    · exact .inr (hdeep n h)

/-- Where a parser has settled, another one that depends on it has settled, too. -/
theorem stop (hp : Settles p rest o) (hne : o' ≠ .aborted .tooDeep)
    (hstop : ∀ n, (p n rest).outcome = o → (r n rest).outcome = o')
    (hdeep : ∀ n, (p n rest).outcome = .aborted .tooDeep →
      (r n rest).outcome = .aborted .tooDeep) : Settles r rest o' := by
  have hq : Settles (fun _ _ => ⟨o', none⟩ : Nat → Parser β) rest o' := const rfl hne
  exact hp.goOn hq hstop hdeep

/-- A parser settles for what another one does that gets by with one unit less. -/
theorem spend {p' : Nat → Parser α} (h : Settles p rest o) (hzero : p' 0 = Parser.abort .tooDeep)
    (hsucc : ∀ n, p' (n + 1) = p n) : Settles p' rest o := by
  refine ⟨h.ne_tooDeep, ?_, fun n => ?_⟩
  · rcases h.exists_allowance with ⟨n, hn⟩
    refine ⟨n + 1, fun m hm => ?_⟩
    obtain ⟨k, rfl⟩ : ∃ k, m = k + 1 := ⟨m - 1, by omega⟩
    rw [hsucc]
    exact hn k (by omega)
  · cases n with
    | zero =>
        rw [hzero]
        exact .inr rfl
    | succ n =>
        rw [hsucc]
        exact h.eq_or_tooDeep n

end Settles

end Reading

end Tptp
