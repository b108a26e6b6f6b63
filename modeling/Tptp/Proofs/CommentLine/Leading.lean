import Tptp.Proofs.Lexical.Layout
import Tptp.Proofs.Locality.Resume
import Tptp.Read

/-!
# The Comment Lines in Front of a Text

Which lines the summary of a text is read from, and how.

Comment lines go on as long as nothing but blanks stands between them. A block comment ends
them, and so does any other text, even if a line further on starts with a percent sign. The
lines up to there are found one after the other, and the summary is what the first of them to
announce a status and the first to announce a form of data say. Those may be two lines, in
either order, and what is announced again later counts as little as what is not understood.

## Main definitions

* `CommentLines`: Comment lines in front of a later part of a text.
* `Leading`: The same, where no other line comes next.
* `Summary.said`: What a line adds to a summary.

## Theorems

* `exists_leading`, `CommentLines.prefix_of_leading`: There is a longest sequence of lines.
* `CommentLines.exists_front`: They stay the same in front of another text.
* `Summary.foldl_join`: The first of each counts.
* `Grammar.announcements_of_leading`: What the lines come to.
* `Read.announcements_first`: The summary of a text.
-/

namespace Tptp

namespace Szs

/-- Comment lines in front of a later part of a text, with blanks before them and between
    them. A line goes on to the next newline or, if it is the last one, to the end. -/
inductive CommentLines : List Char → List (List Char) → List Char → Prop where
  | nil (text : List Char) : CommentLines text [] text
  | blank {c : Char} {text left : List Char} {lines : List (List Char)}
      (hc : Text.isBlank c = true) (others : CommentLines text lines left) :
      CommentLines (c :: text) lines left
  | line {line text left : List Char} {lines : List (List Char)} (h : '\n' ∉ line)
      (others : CommentLines text lines left) :
      CommentLines ('%' :: (line ++ '\n' :: text)) (line :: lines) left
  | lastLine {line : List Char} (h : '\n' ∉ line) : CommentLines ('%' :: line) [line] []

/-- All comment lines in front of a text: behind them there is neither a blank nor another
    one. -/
structure Leading (text : List Char) (lines : List (List Char)) (left : List Char) : Prop where
  commentLines : CommentLines text lines left
  ends : ∀ c ∈ left.head?, Text.isBlank c = false ∧ c ≠ '%'

section

variable {c : Char} {text left line : List Char} {lines : List (List Char)}

/-- Comment lines are layout. -/
theorem CommentLines.skips (h : CommentLines text lines left) : Reading.Skips text left := by
  induction h with
  | nil text => exact .nil text
  | blank hc _ ih => exact .blank hc ih
  | line hline _ ih => exact .line hline ih
  | lastLine hline => exact .lastLine hline

/-- In front of something else the lines end, and they do not depend on what that is. -/
theorem CommentLines.exists_front (h : CommentLines text lines left) (hleft : left ≠ []) :
    ∃ front, text = front ++ left ∧ ∀ other, CommentLines (front ++ other) lines other := by
  induction h with
  | nil => exact ⟨[], rfl, .nil⟩
  | blank hc _ ih =>
      rcases ih hleft with ⟨front, rfl, hfront⟩
      exact ⟨_ :: front, rfl, fun other => .blank hc (hfront other)⟩
  | @line line _ _ _ hline _ ih =>
      rcases ih hleft with ⟨front, rfl, hfront⟩
      refine ⟨'%' :: (line ++ '\n' :: front), ?_, fun other => ?_⟩
      · rw [List.cons_append, List.append_assoc, List.cons_append]
      · rw [List.cons_append, List.append_assoc, List.cons_append]
        exact .line hline (hfront other)
  | lastLine => exact absurd rfl hleft

/-- The first newline splits a text in one way. -/
theorem line_inj {line' text' : List Char} (hline : '\n' ∉ line) (hline' : '\n' ∉ line')
    (h : line ++ '\n' :: text = line' ++ '\n' :: text') : line = line' ∧ text = text' := by
  obtain rfl : line = line' := by
    rw [← Reading.line_ofList hline text, h, Reading.line_ofList hline' text']
  exact ⟨rfl, (List.cons.inj (List.append_cancel_left h)).2⟩

/-- Blanks in front do not matter. -/
theorem Leading.of_blank (hc : Text.isBlank c = true) (h : Leading (c :: text) lines left) :
    Leading text lines left := by
  rcases h with ⟨hlines, hends⟩
  cases hlines with
  | nil =>
      have hnot := (hends c rfl).1
      rw [hc] at hnot
      exact absurd hnot nofun
  | blank _ hlines => exact ⟨hlines, hends⟩
  | line | lastLine => exact absurd hc (by decide)

/-- A percent sign starts a line, which ends at the first newline. -/
theorem Leading.of_line (hline : '\n' ∉ line)
    (h : Leading ('%' :: (line ++ '\n' :: text)) lines left) :
    ∃ others, lines = line :: others ∧ Leading text others left := by
  rcases h with ⟨hlines, hends⟩
  generalize htext : '%' :: (line ++ '\n' :: text) = whole at hlines
  cases hlines with
  | nil => exact absurd rfl (hends '%' (htext ▸ rfl)).2
  | blank hc =>
      rw [← (List.cons.inj htext).1] at hc
      exact absurd hc (by decide)
  | line hother hlines =>
      rcases line_inj hline hother (List.cons.inj htext).2 with ⟨rfl, rfl⟩
      exact ⟨_, rfl, hlines, hends⟩
  | lastLine hlast =>
      rw [← (List.cons.inj htext).2] at hlast
      exact absurd (List.mem_append_right line (List.mem_cons_self ..)) hlast

/-- Without another newline the line is the last one. -/
theorem Leading.of_lastLine (hline : '\n' ∉ line) (h : Leading ('%' :: line) lines left) :
    lines = [line] := by
  rcases h with ⟨hlines, hends⟩
  cases hlines with
  | nil => exact absurd rfl (hends '%' rfl).2
  | blank hc => exact absurd hc (by decide)
  | line => exact absurd (List.mem_append_right _ (List.mem_cons_self ..)) hline
  | lastLine => rfl

/-- There is no longer sequence of comment lines, nor one that goes another way. -/
theorem CommentLines.prefix_of_leading {others : List (List Char)} {rest : List Char}
    (h : CommentLines text others rest) (hleading : Leading text lines left) :
    others <+: lines := by
  induction h generalizing lines with
  | nil => exact List.nil_prefix
  | blank hc _ ih => exact ih (hleading.of_blank hc)
  | line hline _ ih =>
      rcases hleading.of_line hline with ⟨more, rfl, hmore⟩
      exact List.cons_prefix_cons.mpr ⟨rfl, ih hmore⟩
  | lastLine hline =>
      obtain rfl := hleading.of_lastLine hline
      exact List.prefix_rfl

/-- Every text has leading comment lines, if only none. -/
theorem exists_leading (text : List Char) : ∃ lines left, Leading text lines left := by
  induction hlength : text.length using Nat.strongRecOn generalizing text with
  | _ length ih =>
      rcases text with _ | ⟨c, text⟩
      · exact ⟨[], [], .nil [], nofun⟩
      by_cases hblank : Text.isBlank c = true
      · rcases ih _ (hlength ▸ Nat.lt_succ_self _) text rfl with ⟨lines, left, hlines, hends⟩
        exact ⟨lines, left, .blank hblank hlines, hends⟩
      by_cases hpercent : c = '%'
      · subst hpercent
        by_cases hline : '\n' ∈ text
        · rcases List.eq_append_cons_of_mem hline with ⟨line, others, rfl, hnot⟩
          have hlt : others.length < length := by
            simp only [← hlength, List.length_cons, List.length_append]
            omega
          rcases ih _ hlt others rfl with ⟨lines, left, hlines, hends⟩
          exact ⟨line :: lines, left, .line hnot hlines, hends⟩
        · exact ⟨[text], [], .lastLine hline, nofun⟩
      · refine ⟨[], c :: text, .nil _, ?_⟩
        rintro d ⟨⟩
        exact ⟨Bool.eq_false_iff.mpr hblank, hpercent⟩

end

namespace Summary

/-- What a line adds to a summary. -/
def said (line : List Char) : Summary :=
  (Read.announcement (String.ofList line)).getD .empty

/-- Of each part of a summary that joining takes from the left, the first one counts, whatever
    its line or another one says about other parts. -/
theorem foldl_join {α : Type} (part : Summary → Option α) (hempty : part .empty = none)
    (hjoin : ∀ a b, part (join a b) = (part a).or (part b)) (summary : Summary)
    (lines : List (List Char)) : part ((lines.map said).foldl join summary) =
      (part summary).or
        (lines.findSome? fun line => (Read.announcement (String.ofList line)).bind part) := by
  induction lines generalizing summary with
  | nil => exact Option.or_none.symm
  | cons line lines ih =>
      rw [List.map_cons, List.foldl_cons, ih, List.findSome?_cons, hjoin, said, Option.or_assoc]
      rcases Read.announcement (String.ofList line) with _ | said
      · rw [Option.getD_none, hempty]
        rfl
      · rw [Option.getD_some, Option.bind_some]
        rcases part said with _ | value <;> rfl

end Summary

end Szs

namespace Grammar

open Reading Parser Szs

variable {text line left : List Char} {lines : List (List Char)}

/-- A comment line is passed over with the blanks behind it, whatever it announces. -/
theorem announcement_of_nextLine (hline : (Rest.ofList text).line = line)
    (hnext : (Rest.ofList text).nextLine = .ofList left) :
    announcement (.ofList ('%' :: text)) =
      ⟨.done (Summary.said line) (.ofList (left.dropWhile Text.isBlank)), none⟩ := by
  have hfirst : (Rest.ofList ('%' :: text)).drop 1 = .ofList text := Rest.drop_ofList 1 _
  simp only [announcement, bind_apply, take, hfirst, restOfLine, hline, hnext, skipBlanks,
    Rest.skipWhile_ofList, pure_apply, Result.after, Failure.later_none, Summary.said,
    Read.announcement, String.toList_ofList]

/-- The loop over the lines adds the first of them and goes on behind it. -/
theorem loop_announcement {summary : Summary}
    (hfirst : announcement (.ofList ('%' :: text)) = ⟨.done summary (.ofList left), none⟩)
    (hlt : left.length < ('%' :: text).length) :
    repeatWhile (·.opensWith '%') announcement (.ofList ('%' :: text)) =
      (repeatWhile (·.opensWith '%') announcement (.ofList left)).cons summary := by
  rw [repeatWhile_apply, if_pos (opensWith_ofList_iff.mpr rfl), hfirst]
  change (if left.length < ('%' :: text).length then _ else _ : Result _) = _
  rw [if_pos hlt, Result.after_none]

/-- Where the lines end so does the loop. -/
theorem loop_announcement_end (hends : ∀ c ∈ text.head?, Text.isBlank c = false ∧ c ≠ '%') :
    repeatWhile (·.opensWith '%') announcement (.ofList text) = ⟨.done [] (.ofList text), none⟩ := by
  rw [repeatWhile_apply, if_neg]
  exact fun hopens => (hends '%' (opensWith_ofList_iff.mp hopens)).2 rfl

/-- The loop goes over the leading lines, from the first on. -/
theorem loop_of_commentLines (h : CommentLines text lines left)
    (hends : ∀ c ∈ left.head?, Text.isBlank c = false ∧ c ≠ '%') :
    repeatWhile (·.opensWith '%') announcement (.ofList (text.dropWhile Text.isBlank)) =
      ⟨.done (lines.map Summary.said) (.ofList left), none⟩ := by
  have hpercent : Text.isBlank '%' = false := by decide
  induction h with
  | nil text =>
      have htext : text.dropWhile Text.isBlank = text := by
        rcases text with _ | ⟨c, text⟩
        · rfl
        · rw [List.dropWhile_cons, (hends c rfl).1, if_neg Bool.false_ne_true]
      rw [htext, loop_announcement_end hends, List.map_nil]
  | blank hc _ ih => rw [List.dropWhile_cons, if_pos hc, ih hends]
  | @line line text _ lines hline _ ih =>
      have hfirst := announcement_of_nextLine (line_ofList hline text) (nextLine_ofList hline text)
      have hlt : (text.dropWhile Text.isBlank).length < ('%' :: (line ++ '\n' :: text)).length := by
        have hle := (List.dropWhile_suffix Text.isBlank (l := text)).length_le
        simp only [List.length_cons, List.length_append]
        omega
      rw [List.dropWhile_cons, hpercent, if_neg Bool.false_ne_true, loop_announcement hfirst hlt,
        ih hends, List.map_cons]
      rfl
  | lastLine hline =>
      have hfirst := announcement_of_nextLine (line_ofList_last hline) (nextLine_ofList_last hline)
      rw [List.dropWhile_cons, hpercent, if_neg Bool.false_ne_true,
        loop_announcement hfirst (Nat.zero_lt_succ _), List.dropWhile_nil,
        loop_announcement_end hends]
      rfl

/-- The lines are passed over, and no failure is dropped on the way. -/
theorem announcements_of_leading (h : Leading text lines left) :
    announcements (.ofList text) =
      ⟨.done ((lines.map Summary.said).foldl Summary.join .empty) (.ofList left), none⟩ := by
  have hstart : skipBlanks (.ofList text) =
      ⟨.done () (.ofList (text.dropWhile Text.isBlank)), none⟩ := by
    rw [skipBlanks, Rest.skipWhile_ofList]
  unfold announcements
  rw [bind_of_done hstart, bind_of_done (loop_of_commentLines h.commentLines h.ends), pure_apply]

end Grammar

open Szs

/-- The summary is what the leading lines come to. -/
theorem Read.announcements_eq {text : String} {lines : List (List Char)} {left : List Char}
    (h : Leading text.toList lines left) :
    Read.announcements text = (lines.map Summary.said).foldl Summary.join .empty := by
  rw [Read.announcements, Grammar.announcements_of_leading h]

/-- Every text has a summary, and the reading of it never fails. There is a longest sequence of
    comment lines in front of a text, with blanks before each of them. The status is that of the
    first of these lines to announce one, the form of data that of the first to announce one of
    those. Nothing else matters: texts with the same leading lines have the same summary, and
    from the first other character on a text may go on in any way. -/
theorem Read.announcements_first (text : String) :
    ∃ lines left, Leading text.toList lines left ∧
      (∀ others rest, CommentLines text.toList others rest → others <+: lines) ∧
      Grammar.announcements (.ofList text.toList) =
        ⟨.done (Read.announcements text) (.ofList left), none⟩ ∧
      (Read.announcements text).status =
        (lines.findSome? fun line =>
          (Read.announcement (String.ofList line)).bind Summary.status) ∧
      (Read.announcements text).dataform =
        (lines.findSome? fun line =>
          (Read.announcement (String.ofList line)).bind Summary.dataform) ∧
      (∀ (other : String) rest, Leading other.toList lines rest →
        Read.announcements other = Read.announcements text) ∧
      ∀ front c behind, left = c :: behind → text.toList = front ++ left →
        ∀ more, Read.announcements (String.ofList (front ++ c :: more)) =
          Read.announcements text := by
  rcases exists_leading text.toList with ⟨lines, left, hleading⟩
  have hsummary := Read.announcements_eq hleading
  have hsame (other : String) (rest : List Char) (h : Leading other.toList lines rest) :
      Read.announcements other = Read.announcements text :=
    (Read.announcements_eq h).trans hsummary.symm
  refine ⟨lines, left, hleading, fun others rest h => h.prefix_of_leading hleading, ?_, ?_, ?_,
    hsame, ?_⟩
  · rw [hsummary]
    exact Grammar.announcements_of_leading hleading
  · rw [hsummary, Summary.foldl_join Summary.status rfl fun _ _ => rfl]
    exact Option.none_or
  · rw [hsummary, Summary.foldl_join Summary.dataform rfl fun _ _ => rfl]
    exact Option.none_or
  · intro front c behind hleft htext more
    rcases hleading.commentLines.exists_front (hleft ▸ List.cons_ne_nil _ _) with
      ⟨front', hfront', hlines⟩
    obtain rfl := List.append_cancel_right (htext.symm.trans hfront')
    refine hsame _ (c :: more) ⟨?_, fun d hd => ?_⟩
    · rw [String.toList_ofList]
      exact hlines _
    · refine hleading.ends d ?_
      rw [hleft]
      exact hd

/-- Whatever stands in place of a clause behind two comment lines, the status that the first of
    them announces counts. -/
theorem Read.announcements_of_otherText :
    ∃ front left, "% SZS status Theorem\n% SZS status Unknown\ncnf".toList = front ++ left ∧
      left = ['c', 'n', 'f'] ∧
      Read.announcements (String.ofList (front ++ 'c' :: "% SZS output start Proof".toList)) =
        ⟨some (.success .isTheorem), none⟩ := by
  have hlines : CommentLines ('%' :: (" SZS status Theorem".toList ++ '\n' :: '%' ::
      (" SZS status Unknown".toList ++ '\n' :: "cnf".toList)))
      [" SZS status Theorem".toList, " SZS status Unknown".toList] "cnf".toList :=
    .line (by decide) (.line (by decide) (.nil _))
  have hleading : Leading "% SZS status Theorem\n% SZS status Unknown\ncnf".toList
      [" SZS status Theorem".toList, " SZS status Unknown".toList] "cnf".toList := by
    refine ⟨hlines, ?_⟩
    rintro c ⟨⟩
    exact ⟨by decide, by decide⟩
  rcases announcements_first "% SZS status Theorem\n% SZS status Unknown\ncnf" with
    ⟨lines, left, -, -, hdone, -, -, -, hmore⟩
  -- The lines end in one place.
  have hleft : left = "cnf".toList := by
    rw [Grammar.announcements_of_leading hleading] at hdone
    exact Reading.Rest.ofList_inj
      (Reading.Outcome.done.inj (congrArg Reading.Result.outcome hdone)).2.symm
  rcases hleading.commentLines.exists_front (by decide) with ⟨front, hfront, -⟩
  refine ⟨front, left, hleft ▸ hfront, hleft, ?_⟩
  rw [hmore front 'c' "nf".toList hleft (hleft ▸ hfront)]
  decide +kernel

end Tptp
