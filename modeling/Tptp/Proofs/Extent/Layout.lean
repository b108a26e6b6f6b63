import Tptp.Proofs.Lexical.Layout
import Tptp.Reading.Session

/-!
# How Far Layout Goes

Skipping layout at any position of a text.

There is more than one way to go over blanks and comments, since one may stop after any of
them. Yet skipping is a function, and it comes to the same at both ends of a stretch of
layout. So all the ways from a position lead to one place, where no layout starts or where a
comment opens that has no end: at the one skipping stops, at the other it fails. No stretch
of layout goes further, and one that stops on the way can be taken up from there.

## Main definitions

* `LayoutEnds`: Nothing more can be skipped.

## Theorems

* `Rest.ofPosition_add`: The place behind a part of a text.
* `Skips.suffix`: Behind layout stands the remainder of the text.
* `eq_of_skips`: Layout ends in one place.
* `Skips.of_skips`: From any place on the way, layout leads there.
* `skipLayout_longest`: Skipping takes the longest stretch of layout there is.
-/

namespace Tptp

namespace Reading

/-- The place behind a part of a text. -/
theorem Rest.ofPosition_add {text front left : List Char} {position : Nat}
    (hle : position ≤ text.length) (h : text.drop position = front ++ left) :
    Rest.ofPosition text (position + front.length) = .ofList left := by
  have hlength := congrArg List.length h
  rw [List.length_drop, List.length_append] at hlength
  rw [Rest.ofPosition_of_le (by omega), ← List.drop_drop, h, List.drop_left]

/-- Behind layout stands the remainder of the text. -/
theorem Skips.suffix {text left : List Char} (h : Skips text left) : left <:+ text := by
  by_cases hnil : left = []
  · rw [hnil]
    exact List.nil_suffix
  · rcases h.exists_gap hnil with ⟨gap, -, rfl⟩
    exact List.suffix_append gap left

/-- Nothing more can be skipped: no layout starts here, or a comment that has no end. -/
def LayoutEnds (text : List Char) : Prop :=
  Significant text ∨ Unclosed text

/-- Layout ends in one place. -/
theorem eq_of_skips {text a b : List Char} (ha : Skips text a) (hb : Skips text b)
    (hendA : LayoutEnds a) (hendB : LayoutEnds b) : a = b := by
  have hsame : (Parser.skipLayout (.ofList a)).outcome = (Parser.skipLayout (.ofList b)).outcome :=
    congrArg _ ((skipLayout_eq_of_skips ha).symm.trans (skipLayout_eq_of_skips hb))
  rcases hendA with hendA | hendA <;> rcases hendB with hendB | hendB
  · rw [skipLayout_significant hendA, skipLayout_significant hendB] at hsame
    exact Rest.ofList_inj (Outcome.done.inj hsame).2
  · rw [skipLayout_significant hendA, skipLayout_unclosed hendB] at hsame
    exact absurd hsame nofun
  · rw [skipLayout_unclosed hendA, skipLayout_significant hendB] at hsame
    exact absurd hsame nofun
  -- A failure tells how much is left, and what is left is the remainder of one text.
  · rw [skipLayout_unclosed hendA, skipLayout_unclosed hendB] at hsame
    have hleft : (a.length : Int) = b.length :=
      congrArg Failure.left (Outcome.failed.inj hsame)
    have hlength : a.length = b.length := Int.ofNat.inj hleft
    have hsuffix := List.suffix_of_suffix_length_le ha.suffix hb.suffix (Nat.le_of_eq hlength)
    exact hsuffix.eq_of_length hlength

/-- Wherever one stops on the way, the rest of the layout leads to where it ends. -/
theorem Skips.of_skips {text left other : List Char} (h : Skips text left)
    (hend : LayoutEnds left) (hother : Skips text other) : Skips other left := by
  rcases exists_skips other with ⟨last, hlast, hlastEnd⟩
  rwa [eq_of_skips h (hother.trans hlast) hend hlastEnd]

/-- Where nothing is left, nothing is skipped. -/
theorem skipLayout_of_nil {rest : Rest} (h : rest.chars = []) :
    Parser.skipLayout rest = ⟨.done () rest, none⟩ := by
  have hskip : rest.skipWhile Text.isBlank = rest := by
    refine Rest.ext ?_ rfl
    rw [Rest.chars_skipWhile, h, List.dropWhile_nil]
  have hpercent : ¬ rest.opensWith '%' = true := by
    rw [Rest.opensWith, h]
    decide
  have hslash : ¬ rest.startsWith ['/', '*'] = true := by
    have hprefix : ['/', '*'].isPrefixOf ([] : List Char) = false := rfl
    rw [Rest.startsWith, h, hprefix, Bool.and_false]
    exact Bool.false_ne_true
  rw [Parser.skipLayout, hskip]
  simp only [hpercent, hslash, Bool.false_eq_true, dite_false]

/-- Skipping layout at a position of a text goes over the longest stretch of blanks and
    comments that starts there. It stops behind it, where it skips nothing more, or it fails
    there, if that is where a comment opens that has no end. Skipped from any place on the way,
    the remainder comes to the same. -/
theorem skipLayout_longest (text : List Char) (position : Nat) :
    ∃ gap left, text.drop position = gap ++ left ∧ Skips (gap ++ left) left ∧
      (∀ gap' left', text.drop position = gap' ++ left' → Skips (gap' ++ left') left' →
        gap'.length ≤ gap.length ∧ Skips left' left ∧
          Parser.skipLayout (.ofPosition text (position + gap'.length)) =
            Parser.skipLayout (.ofPosition text position)) ∧
      ((Significant left ∧
          Parser.skipLayout (.ofPosition text position) =
            ⟨.done () (.ofPosition text (position + gap.length)), none⟩ ∧
          Parser.skipLayout (.ofPosition text (position + gap.length)) =
            ⟨.done () (.ofPosition text (position + gap.length)), none⟩) ∨
        (Unclosed left ∧ ∃ failure,
          Parser.skipLayout (.ofPosition text position) = ⟨.failed failure, none⟩ ∧
            positionOf text failure.left = position + gap.length)) := by
  rcases Nat.lt_or_ge text.length position with hlt | hle
  -- Behind the end of the text there is nothing.
  · have hnil : text.drop position = [] := List.drop_eq_nil_of_le (Nat.le_of_lt hlt)
    have hdone : Parser.skipLayout (.ofPosition text position) =
        ⟨.done () (.ofPosition text position), none⟩ := skipLayout_of_nil hnil
    refine ⟨[], [], hnil, .nil [], fun gap' left' h _ => ?_, .inl ⟨significant_nil, hdone, hdone⟩⟩
    rcases List.append_eq_nil_iff.mp (h.symm.trans hnil) with ⟨rfl, rfl⟩
    exact ⟨Nat.le_refl _, .nil [], rfl⟩
  · have hplace := Rest.ofPosition_of_le hle
    rcases exists_skips (text.drop position) with ⟨left, hskips, hend⟩
    rcases hskips.suffix with ⟨gap, hgap⟩
    have hbehind := Rest.ofPosition_add hle hgap.symm
    have hsame := skipLayout_eq_of_skips hskips
    refine ⟨gap, left, hgap.symm, hgap ▸ hskips, fun gap' left' h hskips' => ?_, ?_⟩
    · rw [← h] at hskips'
      have hrest := hskips.of_skips hend hskips'
      have hlength := congrArg List.length (hgap.trans h)
      rw [List.length_append, List.length_append] at hlength
      have hshorter := hrest.length_le
      refine ⟨by omega, hrest, ?_⟩
      rw [Rest.ofPosition_add hle h, hplace]
      exact (skipLayout_eq_of_skips hskips').symm
    · rw [hplace, hbehind, hsame]
      rcases hend with hend | hend
      · exact .inl ⟨hend, skipLayout_significant hend, skipLayout_significant hend⟩
      · refine .inr ⟨hend, _, skipLayout_unclosed hend, ?_⟩
        rw [← hbehind]
        exact positionOf_ofPosition text _

end Reading

end Tptp
