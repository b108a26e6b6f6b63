import Mathlib.Data.Bool.AllAny
import Tptp.Proofs.Character
import Tptp.Proofs.Lexical.Layout
import Tptp.Proofs.Lexical.Quoted

/-!
# Paths Through a Text

Where in a text a parser may come to stand.

A parser may take a text apart in more than one way, and it may turn back. Yet
comments and quotations are always taken as a whole. So there is one path through
the text that no parser leaves: it goes from character to character, and over every
comment and every quotation in one step.

What follows a text can change what its characters mean. Behind an opening quote, a
closing one may be found only there, and layout may go on. Neither happens at a place
from which the path leads to a full stop: on the way to it every comment and every
quotation has been closed, and the full stop is not layout.

## Main definitions

* `advance`: The next place on the path.
* `Path`: The path leads from one place to a later one.
* `Enclosed`: Places that no path leads to.
* `FullStop`: A full stop that belongs to no number.

## Theorems

* `Path.trans`: Paths are put together.
* `Skips.path`, `path_of_walks`: Layout and other characters are on the path.
* `Path.exists_front`, `Path.of_length_le`: Places on one path.
* `Path.of_not_enclosed`, `Path.not_enclosed`: All other places are on the path.
* `Path.behind_skips`, `Path.behind_walks`: What is taken in front of a full stop ends
  in front of it.
* `Path.exists_significant`: Layout in front of a full stop ends, whatever follows.
-/

namespace Tptp

namespace Reading

/-- A character that is a step of its own wherever it stands. -/
def walks (c : Char) : Bool :=
  c ∉ ['%', '/', '\x27', '"']

/-- What is left behind the first character of a text, or behind the comment or the
    quotation that it opens. There is no such place if these have no end. -/
def advance : List Char → Option (List Char)
  | [] => none
  | c :: text =>
    if c = '%' then some ((text.dropWhile (· ≠ '\n')).drop 1)
    else if c = '/' ∧ text.head? = some '*' then
      (blockLength? text.tail).map fun length => text.tail.drop length
    else if c = '\x27' ∨ c = '"' then
      (Text.Quoted.decode c text).map fun decoded => text.drop decoded.2
    else some text

/-- The path from one place of a text to another one. -/
inductive Path : List Char → List Char → Prop where
  | here (text : List Char) : Path text text
  | step {text middle left : List Char} (h : advance text = some middle)
      (others : Path middle left) : Path text left

/-- A full stop with no digit behind it. -/
def FullStop (text : List Char) : Prop :=
  ∃ rest, text = '.' :: rest ∧ ∀ c ∈ rest.head?, c.isDigit = false

/-- Every character but four is a step. -/
theorem advance_of_walks {c : Char} (h : walks c = true) (text : List Char) :
    advance (c :: text) = some text := by
  rw [walks, decide_eq_true_eq] at h
  simp only [List.mem_cons, List.not_mem_nil, or_false, not_or] at h
  rw [advance, if_neg h.1, if_neg fun hslash => h.2.1 hslash.1,
    if_neg fun hquote => hquote.elim h.2.2.1 h.2.2.2]

/-- A slash is a step unless a star follows. -/
theorem advance_slash {text : List Char} (h : text.head? ≠ some '*') :
    advance ('/' :: text) = some text := by
  rw [advance, if_neg (by decide), if_neg fun hopening => h hopening.2, if_neg (by decide)]

/-- A blank is a step. -/
theorem advance_blank {c : Char} (h : Text.isBlank c = true) (text : List Char) :
    advance (c :: text) = some text := by
  refine advance_of_walks ?_ text
  rw [walks, decide_eq_true_eq]
  intro hmem
  have hall : ∀ d ∈ ['%', '/', '\x27', '"'], Text.isBlank d = false :=
    List.all_iff_forall_prop.mp (by decide)
  rw [hall c hmem] at h
  exact Bool.false_ne_true h

theorem dropWhile_line {line : List Char} (h : '\n' ∉ line) (text : List Char) :
    (line ++ text).dropWhile (· ≠ '\n') = text.dropWhile (· ≠ '\n') := by
  refine List.dropWhile_append_of_pos fun c hc => ?_
  rw [decide_eq_true_eq]
  rintro rfl
  exact h hc

/-- A line comment is a step over the line and its end. -/
theorem advance_line {line : List Char} (h : '\n' ∉ line) (text : List Char) :
    advance ('%' :: (line ++ '\n' :: text)) = some text := by
  rw [advance, if_pos rfl, dropWhile_line h, List.dropWhile_cons_of_neg (by decide),
    List.drop_succ_cons, List.drop_zero]

/-- A comment on the last line is a step to the end. -/
theorem advance_lastLine {line : List Char} (h : '\n' ∉ line) :
    advance ('%' :: line) = some [] := by
  have hend := dropWhile_line h []
  rw [List.append_nil, List.dropWhile_nil] at hend
  rw [advance, if_pos rfl, hend, List.drop_nil]

/-- A block comment is a step over the comment. -/
theorem advance_block {body : List Char} (h : ¬ ['*', '/'] <:+: body) (text : List Char) :
    advance ('/' :: '*' :: (body ++ '*' :: '/' :: text)) = some text := by
  rw [advance, if_neg (by decide), if_pos ⟨rfl, rfl⟩, List.tail_cons, blockLength?_append h,
    Option.map_some]
  have hdrop : (body ++ '*' :: '/' :: text).drop (body.length + 2) = text := by
    rw [List.drop_append]
    simp only [Nat.add_sub_cancel_left, List.drop_eq_nil_of_le (Nat.le_add_right _ 2),
      List.nil_append, List.drop_succ_cons, List.drop_zero]
  rw [hdrop]

/-- There is no step over a comment without an end. -/
theorem advance_unclosed {text : List Char} (h : Unclosed text) : advance text = none := by
  rcases h with ⟨body, rfl, hbody⟩
  rw [advance, if_neg (by decide), if_pos ⟨rfl, rfl⟩, List.tail_cons,
    (blockLength?_eq_none_iff body).mpr hbody, Option.map_none]

/-- A quotation is a step, if it has an end. -/
theorem advance_quote {quote : Char} (hquote : quote = '\x27' ∨ quote = '"') (text : List Char) :
    advance (quote :: text) =
      (Text.Quoted.decode quote text).map fun decoded => text.drop decoded.2 := by
  have hpercent : quote ≠ '%' := by
    rcases hquote with rfl | rfl <;> decide
  have hslash : quote ≠ '/' := by
    rcases hquote with rfl | rfl <;> decide
  rw [advance, if_neg hpercent, if_neg fun h => hslash h.1, if_pos hquote]

/-- Behind its first character a step drops some more, or none. -/
theorem exists_drop_of_advance {c : Char} {text left : List Char}
    (h : advance (c :: text) = some left) : ∃ n, left = text.drop n := by
  rw [advance] at h
  split at h
  · rw [← Option.some.inj h, List.dropWhile_eq_drop_findIdx_not, List.drop_drop]
    exact ⟨_, rfl⟩
  · split at h
    · rcases Option.map_eq_some_iff.mp h with ⟨n, -, rfl⟩
      rw [← List.drop_one, List.drop_drop]
      exact ⟨_, rfl⟩
    · split at h
      · rcases Option.map_eq_some_iff.mp h with ⟨decoded, -, rfl⟩
        exact ⟨_, rfl⟩
      · exact ⟨0, (Option.some.inj h).symm⟩

/-- There is no step from the end of a text. -/
theorem advance_nil_ne {left : List Char} : advance [] ≠ some left :=
  (Option.some_ne_none left).symm

/-- A step takes a character. -/
theorem length_lt_of_advance {text left : List Char} (h : advance text = some left) :
    left.length < text.length := by
  rcases text with _ | ⟨c, text⟩
  · exact absurd h advance_nil_ne
  · rcases exists_drop_of_advance h with ⟨n, rfl⟩
    rw [List.length_drop, List.length_cons]
    omega

theorem Path.trans {text middle left : List Char} (h : Path text middle)
    (h' : Path middle left) : Path text left := by
  induction h with
  | here => exact h'
  | step hstep _ ih => exact .step hstep (ih h')

/-- A path leads to a part of the text. -/
theorem Path.length_le {text left : List Char} (h : Path text left) :
    left.length ≤ text.length := by
  induction h with
  | here => exact Nat.le_refl _
  | step hstep _ ih =>
      have hlt := length_lt_of_advance hstep
      omega

/-- What is left somewhere on the path is the end of the text. -/
theorem Path.exists_front {text left : List Char} (h : Path text left) :
    ∃ front, text = front ++ left := by
  induction h with
  | here text => exact ⟨[], rfl⟩
  | @step text middle left hstep _ ih =>
      rcases ih with ⟨front, rfl⟩
      rcases text with _ | ⟨c, text⟩
      · exact absurd hstep advance_nil_ne
      · rcases exists_drop_of_advance hstep with ⟨n, hdrop⟩
        refine ⟨c :: (text.take n ++ front), ?_⟩
        rw [List.cons_append, List.append_assoc, hdrop, List.take_append_drop]

/-- Of two places on the path the one with more text left leads to the other. -/
theorem Path.of_length_le {text left stop : List Char} (h : Path text left)
    (hstop : Path text stop) (hle : stop.length ≤ left.length) : Path left stop := by
  induction h with
  | here => exact hstop
  | step hstep hothers ih =>
      cases hstop with
      -- This is the later place, and there is less text left behind the step.
      | here =>
          have hlt := length_lt_of_advance hstep
          have hothers := hothers.length_le
          omega
      | step hother hothers' =>
          rw [hstep, Option.some.injEq] at hother
          exact ih (hother ▸ hothers') hle

/-- A path to a later place starts with a step. -/
theorem Path.exists_advance {text stop : List Char} (h : Path text stop) (hne : text ≠ stop) :
    ∃ middle, advance text = some middle ∧ Path middle stop := by
  cases h with
  | here => exact absurd rfl hne
  | step hstep hothers => exact ⟨_, hstep, hothers⟩

/-- A quotation on the way to a later place has an end, and the way goes on behind it. -/
theorem Path.exists_quotation {quote : Char} (hquote : quote = '\x27' ∨ quote = '"')
    {text stop : List Char} (h : Path (quote :: text) stop) (hne : quote :: text ≠ stop) :
    ∃ chars value left, text = chars ++ left ∧ Text.Quoted.Spells quote chars value ∧
      Path left stop := by
  rcases h.exists_advance hne with ⟨middle, hstep, hothers⟩
  rw [advance_quote hquote] at hstep
  rcases Option.map_eq_some_iff.mp hstep with ⟨⟨value, extent⟩, hdecode, rfl⟩
  rcases Text.Quoted.spells_of_decode hdecode with ⟨chars, left, rfl, hspells, rfl⟩
  rw [List.drop_left] at hothers
  exact ⟨chars, value, left, rfl, hspells, hothers⟩

/-- Layout is on the path. -/
theorem Skips.path {text left : List Char} (h : Skips text left) : Path text left := by
  induction h with
  | nil text => exact .here text
  | blank hc _ ih => exact .step (advance_blank hc _) ih
  | line hline _ ih => exact .step (advance_line hline _) ih
  | lastLine hline => exact .step (advance_lastLine hline) (.here [])
  | block hbody _ ih => exact .step (advance_block hbody _) ih

/-- Characters that are steps are on the path. -/
theorem path_of_walks {word : List Char} (h : ∀ c ∈ word, walks c = true) (left : List Char) :
    Path (word ++ left) left := by
  induction word with
  | nil => exact .here left
  | cons c word ih =>
      refine .step (advance_of_walks (h c List.mem_cons_self) _) (ih fun d hd => ?_)
      exact h d (List.mem_cons_of_mem c hd)

/-- A full stop is not behind the end of the text. -/
theorem FullStop.ne_nil {stop : List Char} (h : FullStop stop) : stop ≠ [] := by
  rcases h with ⟨rest, rfl, -⟩
  exact List.cons_ne_nil _ _

/-- A full stop starts with nothing else. -/
theorem FullStop.ne_cons {stop : List Char} (h : FullStop stop) {c : Char} (hc : c ≠ '.')
    (text : List Char) : c :: text ≠ stop := by
  rcases h with ⟨rest, rfl, -⟩
  exact fun heq => hc (List.cons.inj heq).1

/-- On the way to a full stop there is text. -/
theorem Path.ne_nil {text stop : List Char} (h : Path text stop) (hstop : FullStop stop) :
    text ≠ [] := by
  rintro rfl
  have hle := h.length_le
  exact hstop.ne_nil (List.length_eq_zero_iff.mp (Nat.le_zero.mp hle))

/-- From any other place the path to a full stop goes on over the next one. -/
theorem Path.behind_step {text middle stop : List Char} (h : Path text stop)
    (hstep : advance text = some middle) (hne : text ≠ stop) : Path middle stop := by
  rcases h.exists_advance hne with ⟨other, hother, hothers⟩
  rw [hstep, Option.some.injEq] at hother
  exact hother ▸ hothers

/-- Where layout starts with a step, a later place on the path lies in the layout if this
    holds behind the step. -/
theorem Path.skips_step {text middle left stop : List Char} (h : Path text stop)
    (hstep : advance text = some middle) (hskips : Skips text middle) (hothers : Skips middle left)
    (hlater : Path middle stop → Path left stop ∨ Skips middle stop ∧ Skips stop left) :
    Path left stop ∨ Skips text stop ∧ Skips stop left := by
  by_cases heq : text = stop
  · exact heq ▸ .inr ⟨.nil text, hskips.trans hothers⟩
  · exact (hlater (h.behind_step hstep heq)).imp_right fun h => ⟨hskips.trans h.1, h.2⟩

/-- A place on the path lies behind a stretch of layout, or in it. -/
theorem Path.skips_cases {text left stop : List Char} (h : Path text stop)
    (hskips : Skips text left) : Path left stop ∨ Skips text stop ∧ Skips stop left := by
  induction hskips with
  | nil => exact .inl h
  | blank hc hothers ih => exact h.skips_step (advance_blank hc _) (.blank hc (.nil _)) hothers ih
  | line hline hothers ih =>
      exact h.skips_step (advance_line hline _) (.line hline (.nil _)) hothers ih
  | lastLine hline => exact h.skips_step (advance_lastLine hline) (.lastLine hline) (.nil []) .inl
  | block hbody hothers ih =>
      exact h.skips_step (advance_block hbody _) (.block hbody (.nil _)) hothers ih

/-- Layout in front of a full stop ends in front of it. -/
theorem Path.behind_skips {text left stop : List Char} (hskips : Skips text left)
    (h : Path text stop) (hstop : FullStop stop) : Path left stop := by
  rcases h.skips_cases hskips with hpath | ⟨-, hlayout⟩
  · exact hpath
  -- A full stop opens no layout.
  · rcases hstop with ⟨rest, rfl, -⟩
    rcases hlayout.eq_or_head with rfl | ⟨c, hhead, hc⟩
    · exact .here _
    · rw [List.head?_cons, Option.some.injEq] at hhead
      subst hhead
      exact absurd hc (by decide)

/-- Characters that are steps end in front of a full stop if none of them is one. -/
theorem Path.behind_walks {word left stop : List Char} (hword : ∀ c ∈ word, walks c = true)
    (hpass : ∀ back, back <:+ word → back ≠ [] → ¬ FullStop (back ++ left))
    (h : Path (word ++ left) stop) (hstop : FullStop stop) : Path left stop := by
  induction word with
  | nil => exact h
  | cons c word ih =>
      have hne : c :: word ++ left ≠ stop := by
        rintro rfl
        exact hpass (c :: word) (List.suffix_refl _) (List.cons_ne_nil _ _) hstop
      refine ih (fun d hd => hword d (List.mem_cons_of_mem c hd)) (fun back hback => ?_)
        (h.behind_step (advance_of_walks (hword c List.mem_cons_self) _) hne)
      exact hpass back (hback.trans (List.suffix_cons c word))

/-- A comment in front of a full stop has an end. -/
theorem Path.not_unclosed {text stop : List Char} (h : Path text stop) (hstop : FullStop stop) :
    ¬ Unclosed text := by
  intro hunclosed
  cases h with
  | here =>
      rcases hunclosed with ⟨body, rfl, -⟩
      exact hstop.ne_cons (by decide) _ rfl
  | step hstep =>
      rw [advance_unclosed hunclosed] at hstep
      exact absurd hstep (by simp only [reduceCtorEq, not_false_eq_true])

/-- A slash that opens no comment is a step. -/
theorem Significant.advance_slash {left : List Char} (h : Significant ('/' :: left)) :
    advance ('/' :: left) = some left := by
  refine Reading.advance_slash fun hstar => h.2 ?_
  rcases List.head?_eq_some_iff.mp hstar with ⟨rest, rfl⟩
  exact List.cons_prefix_cons.mpr ⟨rfl, List.cons_prefix_cons.mpr ⟨rfl, List.nil_prefix⟩⟩

/-- The start of a significant text is significant. -/
theorem Significant.of_append {text later : List Char} (h : Significant (text ++ later)) :
    Significant text := by
  refine ⟨fun c hc => h.1 c ?_, fun hopening => h.2 (hopening.trans (List.prefix_append _ _))⟩
  rw [Option.mem_def] at hc ⊢
  rw [List.head?_append, hc, Option.some_or]

/-- What is significant stays so, whatever follows behind layout. -/
theorem Significant.append {text : List Char} (h : Significant text) (hne : text ≠ [])
    {tail : List Char} {c : Char} (htail : tail.head? = some c) (hc : Text.opensLayout c = true) :
    Significant (text ++ tail) := by
  rcases text with _ | ⟨c, text⟩
  · exact absurd rfl hne
  · refine ⟨h.1, fun hopening => ?_⟩
    rcases text with _ | ⟨d, text⟩
    -- A star would have to open the layout, which none does.
    · rcases List.head?_eq_some_iff.mp htail with ⟨rest, rfl⟩
      rcases List.cons_prefix_cons.mp hopening with ⟨-, hstar⟩
      rw [← (List.cons_prefix_cons.mp hstar).1] at hc
      exact absurd hc (by decide)
    · rcases List.cons_prefix_cons.mp hopening with ⟨rfl, hstar⟩
      refine h.2 (List.cons_prefix_cons.mpr ⟨rfl, ?_⟩)
      exact List.cons_prefix_cons.mpr ⟨(List.cons_prefix_cons.mp hstar).1, List.nil_prefix⟩

/-- Layout in front of a full stop ends in front of it, whatever follows. -/
theorem Path.exists_significant {text stop : List Char} (h : Path text stop)
    (hstop : FullStop stop) :
    ∃ gap left, text = gap ++ left ∧ Gap gap ∧ Significant left ∧ Path left stop := by
  rcases exists_skips text with ⟨left, hskips, hleft⟩
  have hpath := h.behind_skips hskips hstop
  rcases hskips.exists_gap (hpath.ne_nil hstop) with ⟨gap, hgap, htext⟩
  -- No comment is left open, since then there would be no way to the full stop.
  rcases hleft with hsignificant | hunclosed
  · exact ⟨gap, left, htext, hgap, hsignificant, hpath⟩
  · exact absurd hunclosed (hpath.not_unclosed hstop)

end Reading

end Tptp
