import Tptp.Proofs.Lexical.Layout
import Tptp.Reading.Token

/-!
# Steps

How the parsers move on that are not made of others.

A step leads from a place to one further on in the text. Nesting is no concern of it, so it
has an outcome whatever the allowance. Most steps take a character where they match; blanks,
the rest of a line and the final checks of a value need not.

Skipping layout is a loop. A round of it skips blanks and one comment, and since a comment
starts with a character, every round that is completed takes one.

## Main definitions

* `Rest.Ahead`: Places that are reached by moving on.
* `Outcome.MovesOn`: Outcomes that are reached so.
* `IsStep`: Parsers that call nothing.
* `Parser.layoutRound?`: One round of skipping layout.

## Theorems

* `Rest.Ahead.eq_of_size_le`: Only staying where one is leaves as much text.
* `isStep_expect`, `isStep_named`, `isStep_quoted`, `isStep_numeral`: Tokens are steps.
* `layoutRound?_progress`: A round of skipping layout takes a character.
* `skipLayout_of_layoutRound?_eq_none`: Where no round is completed, it ends.
-/

namespace Tptp

namespace Reading

variable {α : Type}

namespace Rest

/-- The second place is reached from the first one by moving on. -/
def Ahead (rest after : Rest) : Prop :=
  ∃ n, after = rest.drop n

variable {rest middle after : Rest}

theorem Ahead.refl (rest : Rest) : rest.Ahead rest :=
  ⟨0, Rest.ext rfl rfl⟩

theorem Ahead.trans (h : rest.Ahead middle) (h' : middle.Ahead after) : rest.Ahead after := by
  rcases h with ⟨m, rfl⟩
  rcases h' with ⟨n, rfl⟩
  exact ⟨m + n, drop_drop m n rest⟩

theorem Ahead.size_le (h : rest.Ahead after) : after.size ≤ rest.size := by
  rcases h with ⟨n, rfl⟩
  rw [size_drop]
  omega

theorem Ahead.beyond_eq (h : rest.Ahead after) : after.beyond = rest.beyond := by
  rcases h with ⟨n, rfl⟩
  rfl

/-- Only the place itself is ahead and leaves as much text. -/
theorem Ahead.eq_of_size_le (h : rest.Ahead after) (hsize : rest.size ≤ after.size) :
    after = rest := by
  rcases h with ⟨n, rfl⟩
  rw [size_drop, rest.size_eq] at hsize
  refine Rest.ext ?_ rfl
  rw [chars_drop]
  rcases Nat.eq_zero_or_pos n with rfl | hn
  · rfl
  -- Where there is something to be dropped, dropping leaves less.
  · have hnil : rest.chars = [] := List.length_eq_zero_iff.mp (by omega)
    rw [hnil, List.drop_nil]

theorem ahead_skipWhile (p : Char → Bool) (rest : Rest) : rest.Ahead (rest.skipWhile p) :=
  ⟨_, rfl⟩

/-- The next line is ahead, unless the place is behind the end of the text. -/
theorem ahead_nextLine (hin : rest.beyond = 0) : rest.Ahead rest.nextLine :=
  ⟨rest.line.length + 1, Rest.ext rfl hin.symm⟩

theorem size_nextLine_lt (h : 0 < rest.size) : rest.nextLine.size < rest.size := by
  simp only [nextLine, size_drop]
  omega

end Rest

/-- An outcome whose place is ahead, and further if a character is said to be taken. A
    reason for giving up has nothing to do with nesting. -/
def Outcome.MovesOn (rest : Rest) (takes : Bool) : Outcome α → Prop
  | .done _ after => rest.Ahead after ∧ (takes = true → after.size < rest.size)
  | .failed _ => True
  | .aborted reason => reason ≠ .tooDeep

theorem Outcome.MovesOn.ne_tooDeep {outcome : Outcome α} {rest : Rest} {takes : Bool}
    (h : outcome.MovesOn rest takes) : outcome ≠ .aborted .tooDeep := by
  rintro rfl
  exact h rfl

/-- Moving on from a place further on is moving on. -/
theorem Outcome.MovesOn.behind {outcome : Outcome α} {rest middle : Rest} {takes takes' : Bool}
    (hahead : rest.Ahead middle) (h : outcome.MovesOn middle takes)
    (htakes : takes' = true → takes = true ∨ middle.size < rest.size) :
    outcome.MovesOn rest takes' := by
  cases outcome with
  | done value after =>
      refine ⟨hahead.trans h.1, fun ht => ?_⟩
      have hle := hahead.size_le
      have hle' := h.1.size_le
      rcases htakes ht with hlt | hlt
      · exact Nat.lt_of_lt_of_le (h.2 hlt) hle
      · exact Nat.lt_of_le_of_lt hle' hlt
  | failed => exact trivial
  | aborted => exact h

/-- A parser that calls nothing and moves on in the text. -/
def IsStep (takes : Bool) (p : Parser α) : Prop :=
  ∀ rest : Rest, rest.beyond = 0 → (p rest).outcome.MovesOn rest takes

section

variable {takes : Bool} {rest : Rest}

/-- Moving on by some characters, and where one is to be taken, by at least one. -/
theorem movesOn_drop (value : α) {n : Nat} (h : takes = true → 0 < n ∧ 0 < rest.size) :
    (Outcome.done value (rest.drop n)).MovesOn rest takes := by
  refine ⟨⟨n, rfl⟩, fun htakes => ?_⟩
  rcases h htakes with ⟨hn, hsize⟩
  rw [Rest.size_drop]
  omega

theorem isStep_pure (value : α) : IsStep false (pure value : Parser α) :=
  fun rest _ => ⟨.refl rest, nofun⟩

theorem isStep_fail (label : String) : IsStep takes (Parser.fail label : Parser α) :=
  fun _ _ => trivial

theorem isStep_abort {reason : Abort} (h : reason ≠ .tooDeep) :
    IsStep takes (Parser.abort reason : Parser α) :=
  fun _ _ => h

theorem isStep_build (value : Except Refusal α) : IsStep false (Parser.build value) := by
  cases value with
  | ok value => exact isStep_pure value
  | error refusal => exact isStep_abort nofun

theorem isStep_ite {c : Prop} [Decidable c] {p q : Parser α} (hp : IsStep takes p)
    (hq : IsStep takes q) : IsStep takes (if c then p else q) := by
  split
  · exact hp
  · exact hq

theorem startsWith_of_hasWord {word : List Char} (h : rest.hasWord word = true) :
    rest.startsWith word = true :=
  (Bool.and_eq_true _ _ ▸ h).1

/-- Characters that the text starts with may be taken. -/
theorem movesOn_of_startsWith {text : List Char} (value : α) (h : rest.startsWith text = true) :
    (Outcome.done value (rest.drop text.length)).MovesOn rest (!text.isEmpty) := by
  refine movesOn_drop value fun hne => ?_
  have hpos : 0 < text.length := List.length_pos_iff.mpr fun hnil => by
    rw [hnil] at hne
    exact Bool.false_ne_true hne
  have hle := Rest.le_size_of_startsWith h
  exact ⟨hpos, by omega⟩

/-- A sign or a whole word takes a character, if it has one. -/
theorem isStep_expect (label text : String) {test : Rest → List Char → Bool}
    (htest : ∀ {rest : Rest}, test rest text.toList = true → rest.startsWith text.toList = true) :
    IsStep (!text.toList.isEmpty) (Parser.expect label text test) := by
  intro rest _
  rw [Parser.expect]
  split
  · next h => exact movesOn_of_startsWith text (htest h)
  · trivial

/-- A member of a vocabulary takes a character, if no member is spelled without one. -/
theorem isStep_named (V : Type) [Vocabulary V] :
    IsStep ((Vocabulary.members (V := V)).all fun v => !(Vocabulary.canonical v).toList.isEmpty)
      (Parser.named V) := by
  intro rest _
  rw [Parser.named]
  split
  · next name value hfind =>
      have hname := Vocabulary.mem_nameTable.mp (List.mem_of_find?_eq_some hfind)
      have hword := List.find?_some hfind
      have hmoves := movesOn_of_startsWith value (startsWith_of_hasWord hword)
      refine ⟨hmoves.1, fun hall => hmoves.2 ?_⟩
      exact hname ▸ List.all_eq_true.mp hall value (Vocabulary.mem_members value)
  · trivial

theorem isStep_word (label : String) (first : Char → Bool) :
    IsStep true (Parser.word label first) := by
  intro rest _
  rw [Parser.word]
  split
  · next c chars hchars =>
      split
      · refine movesOn_drop _ fun _ => ⟨Nat.succ_pos _, ?_⟩
        rw [rest.size_eq, hchars]
        exact Nat.succ_pos _
      · trivial
  · trivial

theorem isStep_quoted (quote : Char) : IsStep true (Parser.quoted quote) := by
  intro rest _
  rw [Parser.quoted]
  split
  · next hopens =>
      split
      · exact movesOn_drop _ fun _ => ⟨Nat.succ_pos _, Rest.size_pos_of_opensWith hopens⟩
      · trivial
  · trivial

theorem isStep_numeral : IsStep true Parser.numeral := by
  intro rest _
  rw [Parser.numeral]
  split
  · trivial
  · next hne =>
      split
      · exact nofun
      · have hpos : 0 < (rest.span Char.isDigit).length :=
          List.length_pos_iff.mpr fun h => hne (List.isEmpty_iff.mpr h)
        have hle : (rest.span Char.isDigit).length ≤ rest.size := by
          rw [rest.size_eq]
          exact (List.takeWhile_prefix _).length_le
        exact movesOn_drop _ fun _ => ⟨hpos, by omega⟩

theorem isStep_decimalLiteral : IsStep true Parser.decimalLiteral := by
  intro rest _
  rw [Parser.decimalLiteral]
  split
  · next literal hscan =>
      have hle : literal.chars.length ≤ rest.size := by
        rw [rest.size_eq]
        exact (DecimalLiteral.isPrefix_chars hscan).length_le
      have hpos : 0 < literal.chars.length := by
        rw [List.length_pos_iff]
        intro hnil
        simp only [DecimalLiteral.chars, List.append_eq_nil_iff] at hnil
        simp only [DecimalLiteral.scan?] at hscan
        split at hscan
        · exact absurd hscan (by simp only [reduceCtorEq, not_false_eq_true])
        · next hwhole =>
            rw [← Option.some.inj hscan] at hnil
            exact hwhole (List.isEmpty_iff.mpr hnil.1.1.2)
      exact movesOn_drop literal fun _ => ⟨hpos, by omega⟩
  · trivial

theorem isStep_take (n : Nat) : IsStep false (Parser.take n) :=
  fun _ _ => movesOn_drop () nofun

theorem isStep_skipBlanks : IsStep false Parser.skipBlanks :=
  fun _ _ => movesOn_drop () nofun

theorem isStep_restOfLine : IsStep false Parser.restOfLine :=
  fun _ hin => ⟨Rest.ahead_nextLine hin, nofun⟩

theorem isStep_endOfInput : IsStep false Parser.endOfInput := by
  intro rest _
  rw [Parser.endOfInput]
  split
  · exact ⟨.refl rest, nofun⟩
  · exact trivial

end

/-- Skips blanks and one comment behind them. There is no place behind a comment if none
    opens or if it is not closed. -/
def Parser.layoutRound? (start : Rest) : Option Rest :=
  let rest := start.skipWhile Text.isBlank
  if rest.opensWith '%' then some rest.nextLine
  else if rest.startsWith ['/', '*'] then
    (blockLength? (rest.chars.drop 2)).map fun length => rest.drop (2 + length)
  else none

/-- A round of skipping layout that is completed takes a character, and what comes behind it
    is skipped in further rounds. -/
theorem layoutRound?_progress {start next : Rest} (hin : start.beyond = 0)
    (h : Parser.layoutRound? start = some next) :
    start.Ahead next ∧ next.size < start.size ∧
      Parser.skipLayout start = Parser.skipLayout next := by
  have hskip := Rest.ahead_skipWhile Text.isBlank start
  have hle := hskip.size_le
  rw [Parser.skipLayout]
  simp only [Parser.layoutRound?] at h ⊢
  by_cases hpercent : (start.skipWhile Text.isBlank).opensWith '%' = true
  -- A line has at least its percent sign, even if it is the last one.
  · rw [if_pos hpercent] at h
    rw [dif_pos hpercent]
    obtain rfl := Option.some.inj h
    have hlt := Rest.size_nextLine_lt (Rest.size_pos_of_opensWith hpercent)
    exact ⟨hskip.trans (Rest.ahead_nextLine hin), by omega, rfl⟩
  · rw [if_neg hpercent] at h
    rw [dif_neg hpercent]
    by_cases hopening : (start.skipWhile Text.isBlank).startsWith ['/', '*'] = true
    · rw [if_pos hopening] at h
      rw [dif_pos hopening]
      rcases Option.map_eq_some_iff.mp h with ⟨length, hlength, rfl⟩
      have htwo : 2 ≤ (start.skipWhile Text.isBlank).size := Rest.le_size_of_startsWith hopening
      refine ⟨hskip.trans ⟨_, rfl⟩, ?_, by rw [hlength]⟩
      rw [Rest.size_drop]
      omega
    · rw [if_neg hopening] at h
      exact absurd h nofun

/-- Where no round is completed, skipping layout fails, or it ends behind the blanks. -/
theorem skipLayout_of_layoutRound?_eq_none {start : Rest}
    (h : Parser.layoutRound? start = none) :
    (∃ failure, (Parser.skipLayout start).outcome = .failed failure) ∨
      (Parser.skipLayout start).outcome = .done () (start.skipWhile Text.isBlank) := by
  rw [Parser.skipLayout]
  simp only [Parser.layoutRound?] at h ⊢
  by_cases hpercent : (start.skipWhile Text.isBlank).opensWith '%' = true
  · rw [if_pos hpercent] at h
    exact absurd h nofun
  · rw [if_neg hpercent] at h
    rw [dif_neg hpercent]
    by_cases hopening : (start.skipWhile Text.isBlank).startsWith ['/', '*'] = true
    · rw [if_pos hopening, Option.map_eq_none_iff] at h
      rw [dif_pos hopening, h]
      exact .inl ⟨_, rfl⟩
    · rw [dif_neg hopening]
      exact .inr rfl

end Reading

end Tptp
