import Mathlib.Data.List.TakeWhile
import Mathlib.Data.Prod.Lex
import Tptp.Text.Location

/-!
# Positions from Lines and Columns

A location tells the position, and locations stand in the order of positions.

A location is computed looking back from the position: the newlines in front of it are counted,
and the column is the distance from the last one. Someone who looks the place up goes forward,
past as many lines and then along the line. `lineOffset` goes past the lines, by recursion on
the text. That it meets the last newline in front of the position is all there is to prove.
Then a location determines its position, and further on the line is a later one, or it is the
same line and the column is a later one.

## Main definitions

* `Location.lineOffset`: The position at which a line starts, counted from the front.
* `Location.position`: The position at a location.

## Theorems

* `Location.lineStart_cons`: The last newline in front of a position.
* `Location.lineOffset_count`: Looking back and going forward lead to the same start of a line.
* `Location.position_ofPosition`: A location tells the position.
* `Location.ofPosition_lt`: Locations stand in the order of positions.
-/

namespace Tptp

namespace Location

/-- The position at which a line starts, with a number of lines in front of it. If the text has
    fewer lines, this is its end. -/
def lineOffset : List Char → Nat → Nat
  | _, 0 => 0
  | [], _ + 1 => 0
  | c :: text, lines + 1 => lineOffset text (if c = '\n' then lines else lines + 1) + 1

/-- The position at a location. -/
def position (text : List Char) (location : Location) : Nat :=
  lineOffset text (location.line - 1) + (location.column - 1)

@[simp] theorem lineOffset_zero (text : List Char) : lineOffset text 0 = 0 := by
  cases text <;> rfl

/-- The last newline in front of a position is one behind the first character, or it is the
    first character. -/
theorem lineStart_cons (c : Char) (text : List Char) (p : Nat) :
    lineStart (c :: text) (p + 1) =
      if '\n' ∈ text.take p then lineStart text p + 1 else if c = '\n' then 1 else 0 := by
  have hrun := (List.takeWhile_prefix (l := (text.take p).reverse) (· ≠ '\n')).length_le
  rw [List.length_reverse] at hrun
  simp only [lineStart, List.take_succ_cons, List.reverse_cons, List.takeWhile_append,
    List.length_cons]
  by_cases hmem : '\n' ∈ text.take p
  · have hstops : ((text.take p).reverse.takeWhile (· ≠ '\n')).length ≠
        (text.take p).reverse.length := by
      intro hlength
      have hall := (List.takeWhile_prefix _).eq_of_length hlength
      have hnewline := List.takeWhile_eq_self_iff.mp hall '\n' (List.mem_reverse.mpr hmem)
      exact absurd hnewline (by decide)
    rw [if_neg hstops, if_pos hmem]
    omega
  · have hall : (text.take p).reverse.takeWhile (· ≠ '\n') = (text.take p).reverse := by
      refine List.takeWhile_eq_self_iff.mpr fun d hd => decide_eq_true ?_
      rintro rfl
      exact hmem (List.mem_reverse.mp hd)
    rw [if_pos (congrArg List.length hall), if_neg hmem]
    by_cases hc : c = '\n'
    · simp only [hc, ne_eq, not_true_eq_false, decide_false, Bool.false_eq_true, not_false_eq_true,
        List.takeWhile_cons_of_neg, List.append_nil, List.length_reverse, if_true]
      omega
    · simp only [hc, ne_eq, not_false_eq_true, decide_true, List.takeWhile_cons_of_pos,
        List.takeWhile_nil, List.length_append, List.length_reverse, List.length_cons,
        List.length_nil, if_false]
      omega

/-- Going past as many lines as there are newlines in front of a position leads to the start of
    its line. The induction is on the text. -/
theorem lineOffset_count (text : List Char) (p : Nat) :
    lineOffset text ((text.take p).count '\n') = lineStart text p := by
  induction text generalizing p with
  | nil => simp only [List.take_nil, List.count_nil, lineOffset_zero, lineStart, List.length_nil,
      Nat.zero_sub]
  | cons c text ih =>
      cases p with
      | zero => simp only [List.take_zero, List.count_nil, lineOffset_zero, lineStart,
          List.length_nil, Nat.zero_sub]
      | succ p =>
          rw [lineStart_cons, List.take_succ_cons, List.count_cons, ← ih p]
          by_cases hmem : '\n' ∈ text.take p
          · obtain ⟨n, hn⟩ := Nat.exists_eq_add_one.mpr (List.count_pos_iff.mpr hmem)
            rw [if_pos hmem, hn]
            by_cases hc : c = '\n'
            · simp only [hc, beq_self_eq_true, if_true, lineOffset]
            · simp only [hc, beq_iff_eq, if_false, Nat.add_zero, lineOffset]
          · rw [if_neg hmem, List.count_eq_zero.mpr hmem]
            by_cases hc : c = '\n'
            · simp only [hc, beq_self_eq_true, if_true, lineOffset, lineOffset_zero]
            · simp only [hc, beq_iff_eq, if_false, Nat.add_zero, lineOffset_zero]

/-- A location tells the position. -/
theorem position_ofPosition (text : List Char) (p : Nat) :
    (ofPosition text p).position text = p := by
  have hle := lineStart_le text p
  simp only [position, ofPosition, Nat.add_sub_cancel, lineOffset_count]
  omega

/-- Further on in a text there are at least as many newlines in front. -/
theorem line_ofPosition_le (text : List Char) {p q : Nat} (h : p ≤ q) :
    (ofPosition text p).line ≤ (ofPosition text q).line :=
  Nat.succ_le_succ ((List.take_prefix_take_left h).sublist.count_le '\n')

/-- Locations stand in the order of positions: by line, and on one line by column. -/
theorem ofPosition_lt (text : List Char) {p q : Nat} (h : p < q) :
    toLex ((ofPosition text p).line, (ofPosition text p).column) <
      toLex ((ofPosition text q).line, (ofPosition text q).column) := by
  rcases Nat.lt_or_eq_of_le (line_ofPosition_le text h.le) with hline | hline
  · exact Prod.Lex.toLex_lt_toLex.mpr (.inl hline)
  -- On one line both columns are counted from the same start.
  · refine Prod.Lex.toLex_lt_toLex.mpr (.inr ⟨hline, ?_⟩)
    have hp := position_ofPosition text p
    have hq := position_ofPosition text q
    have hpos : 0 < (ofPosition text p).column := Nat.succ_pos _
    simp only [position, hline] at hp hq ⊢
    omega

end Location

end Tptp
