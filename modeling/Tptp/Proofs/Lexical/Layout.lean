import Tptp.Proofs.Reads

/-!
# Layout, Exactly

What skipping layout comes to at every text.

`Skips` says what layout is, one rule for each kind of it: a blank, a line comment
that the end of its line or of the text ends, a block comment up to the first `*/`
behind its opening. Skipping comes to the same on both sides of a stretch of
layout, so all that is left to know is what it does where no layout starts, and at
a block comment that is not closed. Every text leads to one of these two.

## Main definitions

* `Skips`: Layout in front of a later part of a text.
* `Gap`: Closed stretches of layout.
* `Significant`: No layout starts at a text.
* `Unclosed`: A text starts with a block comment that has no end.

## Theorems

* `skipLayout_eq_of_skips`: Skipping passes over layout.
* `exists_skips`: Layout leads to something else or to an open comment.
* `relates_skipLayout`, `reads_skipLayout`: Skipping is right and takes all it can.
-/

namespace Tptp

namespace Reading

/-- Layout leads from one text to a later part of it. -/
inductive Skips : List Char → List Char → Prop where
  | nil (text : List Char) : Skips text text
  | blank {c : Char} {text left : List Char} (h : Text.isBlank c = true)
      (others : Skips text left) : Skips (c :: text) left
  | line {line text left : List Char} (h : '\n' ∉ line) (others : Skips text left) :
      Skips ('%' :: (line ++ '\n' :: text)) left
  | lastLine {line : List Char} (h : '\n' ∉ line) : Skips ('%' :: line) []
  | block {body text left : List Char} (h : ¬ ['*', '/'] <:+: body)
      (others : Skips text left) : Skips ('/' :: '*' :: (body ++ '*' :: '/' :: text)) left

/-- A closed stretch of layout, which is one whatever follows it. -/
inductive Gap : List Char → Prop where
  | nil : Gap []
  | blank {c : Char} {gap : List Char} (h : Text.isBlank c = true) (others : Gap gap) :
      Gap (c :: gap)
  | line {line gap : List Char} (h : '\n' ∉ line) (others : Gap gap) :
      Gap ('%' :: (line ++ '\n' :: gap))
  | block {body gap : List Char} (h : ¬ ['*', '/'] <:+: body) (others : Gap gap) :
      Gap ('/' :: '*' :: (body ++ '*' :: '/' :: gap))

/-- A text at which no layout starts. -/
def Significant (text : List Char) : Prop :=
  (∀ c ∈ text.head?, Text.isBlank c = false ∧ c ≠ '%') ∧ ¬ ['/', '*'] <+: text

/-- A text that starts with a block comment without an end. -/
def Unclosed (text : List Char) : Prop :=
  ∃ body, text = '/' :: '*' :: body ∧ ¬ ['*', '/'] <:+: body

/-- Two stretches of layout are one. -/
theorem Skips.trans {text middle left : List Char} (h : Skips text middle)
    (h' : Skips middle left) : Skips text left := by
  induction h with
  | nil => exact h'
  | blank hc _ ih => exact .blank hc (ih h')
  | line hl _ ih => exact .line hl (ih h')
  | lastLine hl =>
      -- Behind the end of the text there is no more layout.
      generalize htext : ([] : List Char) = text at h'
      cases h' with
      | nil => exact htext ▸ .lastLine hl
      | blank => exact absurd htext (List.cons_ne_nil _ _).symm
      | line => exact absurd htext (List.cons_ne_nil _ _).symm
      | lastLine => exact absurd htext (List.cons_ne_nil _ _).symm
      | block => exact absurd htext (List.cons_ne_nil _ _).symm
  | block hb _ ih => exact .block hb (ih h')

/-- A closed stretch of layout leads to whatever follows it. -/
theorem Gap.skips {gap : List Char} (h : Gap gap) (left : List Char) : Skips (gap ++ left) left := by
  induction h with
  | nil => exact .nil left
  | blank hc _ ih => exact .blank hc ih
  | line hl _ ih =>
      simp only [List.cons_append, List.append_assoc]
      exact .line hl ih
  | block hb _ ih =>
      simp only [List.cons_append, List.append_assoc]
      exact .block hb ih

/-- Layout in front of something is closed. -/
theorem Skips.exists_gap {text left : List Char} (h : Skips text left) (hleft : left ≠ []) :
    ∃ gap, Gap gap ∧ text = gap ++ left := by
  induction h with
  | nil => exact ⟨[], .nil, rfl⟩
  | blank hc _ ih =>
      rcases ih hleft with ⟨gap, hgap, rfl⟩
      exact ⟨_, .blank hc hgap, rfl⟩
  | line hl _ ih =>
      rcases ih hleft with ⟨gap, hgap, rfl⟩
      exact ⟨_, .line hl hgap, by
        simp only [List.cons_append, List.append_assoc]⟩
  | lastLine => exact absurd rfl hleft
  | block hb _ ih =>
      rcases ih hleft with ⟨gap, hgap, rfl⟩
      exact ⟨_, .block hb hgap, by
        simp only [List.cons_append, List.append_assoc]⟩

/-- Layout up to the end of a text goes on in the next line. -/
theorem Skips.append_line {text : List Char} (h : Skips text []) (later : List Char) :
    Skips (text ++ '\n' :: later) later := by
  generalize hend : ([] : List Char) = left at h
  induction h with
  | nil => exact hend ▸ .blank (by decide) (.nil later)
  | blank hc _ ih => exact .blank hc (ih hend)
  | line hline _ ih =>
      rw [List.cons_append, List.append_assoc, List.cons_append]
      exact .line hline (ih hend)
  | lastLine hline => exact .line hline (.nil later)
  | block hbody _ ih =>
      rw [List.cons_append, List.cons_append, List.append_assoc, List.cons_append, List.cons_append]
      exact .block hbody (ih hend)

/-- Layout is a part of the text. -/
theorem Skips.length_le {text left : List Char} (h : Skips text left) :
    left.length ≤ text.length := by
  induction h with
  | nil => exact Nat.le_refl _
  | blank _ _ ih => exact Nat.le_succ_of_le ih
  | line _ _ ih => simp only [List.length_cons, List.length_append]; omega
  | lastLine => exact Nat.zero_le _
  | block _ _ ih => simp only [List.length_cons, List.length_append]; omega

/-- A stretch of layout is empty, or its first character opens layout. -/
theorem Skips.eq_or_head {text left : List Char} (h : Skips text left) :
    text = left ∨ ∃ c, text.head? = some c ∧ (Text.isBlank c = true ∨ c = '%' ∨ c = '/') := by
  cases h with
  | nil => exact .inl rfl
  | @blank c _ _ hc => exact .inr ⟨c, rfl, .inl hc⟩
  | line => exact .inr ⟨'%', rfl, .inr (.inl rfl)⟩
  | lastLine => exact .inr ⟨'%', rfl, .inr (.inl rfl)⟩
  | block => exact .inr ⟨'/', rfl, .inr (.inr rfl)⟩

/-- A text at the end of which nothing is left can be skipped up to any later part. -/
theorem significant_nil : Significant [] :=
  ⟨fun _ h => absurd h (Option.not_mem_none _), fun h => absurd h.length_le (by decide)⟩

/-- A character that opens no layout. -/
theorem significant_cons {c : Char} {text : List Char} (hblank : Text.isBlank c = false)
    (hpercent : c ≠ '%') (hslash : c ≠ '/') : Significant (c :: text) := by
  refine ⟨fun d hd => ?_, fun h => hslash (List.cons_prefix_cons.mp h).1.symm⟩
  rw [List.head?_cons, Option.mem_some_iff] at hd
  exact hd ▸ ⟨hblank, hpercent⟩

/-- A word opens no layout. -/
theorem significant_of_isWordChar {c : Char} (h : Text.isWordChar c = true) (text : List Char) :
    Significant (c :: text) := by
  have hne : ∀ {d : Char}, Text.isWordChar d = false → c ≠ d := by
    rintro d hd rfl
    exact absurd (h.symm.trans hd) Bool.noConfusion
  exact significant_cons (Text.not_isBlank_of_isWordChar c h) (hne (by decide)) (hne (by decide))

/-- Behind the first `*/` the comment is over. -/
theorem blockLength?_append {body : List Char} (h : ¬ ['*', '/'] <:+: body) (text : List Char) :
    blockLength? (body ++ '*' :: '/' :: text) = some (body.length + 2) := by
  induction body with
  | nil => rfl
  | cons c body ih =>
      have hbody := ih fun hinfix => h (List.infix_cons hinfix)
      rw [List.cons_append, blockLength?, hbody]
      · rfl
      · intro rest hc hrest
        rcases body with _ | ⟨d, body⟩
        · exact absurd (List.cons.inj hrest).1 (by decide)
        · refine h ⟨[], body, ?_⟩
          rw [List.nil_append, hc, ← (List.cons.inj hrest).1]
          rfl

/-- The end of a comment is the first `*/` of the text. -/
theorem exists_of_blockLength? {text : List Char} {length : Nat}
    (h : blockLength? text = some length) :
    ∃ body left, text = body ++ '*' :: '/' :: left ∧ ¬ ['*', '/'] <:+: body ∧
      length = body.length + 2 := by
  fun_induction blockLength? text generalizing length with
  | case1 rest =>
      refine ⟨[], rest, rfl, fun hinfix => absurd hinfix.length_le (by decide), ?_⟩
      exact (Option.some.inj h).symm
  | case2 c rest hopen ih =>
      rcases Option.map_eq_some_iff.mp h with ⟨n, hn, rfl⟩
      rcases ih hn with ⟨body, left, rfl, hbody, rfl⟩
      refine ⟨c :: body, left, rfl, fun hinfix => ?_, rfl⟩
      rcases List.infix_cons_iff.mp hinfix with hprefix | hinfix
      · rcases hprefix with ⟨tail, htail⟩
        rcases List.cons.inj htail with ⟨rfl, hrest⟩
        exact hopen (tail ++ '*' :: '/' :: left) rfl (by rw [← hrest]; rfl)
      · exact hbody hinfix
  | case3 => exact absurd h (by simp only [reduceCtorEq, not_false_eq_true])

/-- A comment without an end is one in which there is no `*/`. -/
theorem blockLength?_eq_none_iff (text : List Char) :
    blockLength? text = none ↔ ¬ ['*', '/'] <:+: text := by
  constructor
  · rintro h ⟨front, back, rfl⟩
    induction front with
    | nil => exact absurd h (by simp only [List.nil_append, List.cons_append, blockLength?,
        reduceCtorEq, not_false_eq_true])
    | cons c front ih =>
        simp only [List.cons_append] at h
        rw [blockLength?.eq_def] at h
        split at h
        · exact absurd h (by simp only [reduceCtorEq, not_false_eq_true])
        · next hcons =>
            rw [← (List.cons.inj hcons).2, Option.map_eq_none_iff] at h
            exact ih h
        · next hnil => exact absurd hnil (List.cons_ne_nil _ _)
  · intro h
    rcases hl : blockLength? text with _ | length
    · rfl
    · rcases exists_of_blockLength? hl with ⟨body, left, rfl, -, -⟩
      refine absurd ⟨body, left, ?_⟩ h
      simp only [List.append_assoc, List.cons_append, List.nil_append]

/-- A line goes on to the newline. -/
theorem line_ofList {line : List Char} (h : '\n' ∉ line) (text : List Char) :
    (Rest.ofList (line ++ '\n' :: text)).line = line := by
  change (line ++ '\n' :: text).takeWhile (· ≠ '\n') = line
  rw [List.takeWhile_append_of_pos]
  · simp only [ne_eq, not_true_eq_false, decide_false, List.takeWhile_cons, Bool.false_eq_true,
      if_false, List.append_nil]
  · intro c hc
    exact decide_eq_true fun hn => h (hn ▸ hc)

/-- The last line goes on to the end. -/
theorem line_ofList_last {line : List Char} (h : '\n' ∉ line) : (Rest.ofList line).line = line := by
  have htake : (line ++ []).takeWhile (· ≠ '\n') = line ++ [].takeWhile (· ≠ '\n') :=
    List.takeWhile_append_of_pos fun c hc => decide_eq_true fun hn => h (hn ▸ hc)
  rwa [List.takeWhile_nil, List.append_nil] at htake

/-- The rest of a line is passed over with the newline behind it. -/
theorem nextLine_ofList {line : List Char} (h : '\n' ∉ line) (text : List Char) :
    (Rest.ofList (line ++ '\n' :: text)).nextLine = .ofList text := by
  refine Rest.ext ?_ rfl
  change (line ++ '\n' :: text).drop ((Rest.ofList (line ++ '\n' :: text)).line.length + 1) = text
  rw [line_ofList h, List.drop_append, List.drop_eq_nil_of_le (Nat.le_succ _)]
  simp only [Nat.add_sub_cancel_left, List.drop_one, List.tail_cons, List.nil_append]

/-- The last line is all that is left. -/
theorem nextLine_ofList_last {line : List Char} (h : '\n' ∉ line) :
    (Rest.ofList line).nextLine = .ofList [] := by
  refine Rest.ext ?_ rfl
  change line.drop ((Rest.ofList line).line.length + 1) = []
  rw [line_ofList_last h]
  exact List.drop_eq_nil_of_le (Nat.le_succ _)

/-- Where no blank stands nothing is skipped at once. -/
theorem skipWhile_isBlank_of_ne {text : List Char} (h : ∀ c ∈ text.head?, Text.isBlank c = false) :
    (Rest.ofList text).skipWhile Text.isBlank = .ofList text := by
  rw [Rest.skipWhile_ofList]
  cases text with
  | nil => rfl
  | cons c text => rw [List.dropWhile_cons, h c rfl, if_neg Bool.false_ne_true]

/-- Skipping where no layout starts. -/
theorem skipLayout_significant {text : List Char} (h : Significant text) :
    Parser.skipLayout (.ofList text) = ⟨.done () (.ofList text), none⟩ := by
  rw [Parser.skipLayout, skipWhile_isBlank_of_ne fun c hc => (h.1 c hc).1]
  have hpercent : ¬ (Rest.ofList text).opensWith '%' = true := fun hc =>
    (h.1 '%' (opensWith_ofList_iff.mp hc)).2 rfl
  have hslash : ¬ (Rest.ofList text).startsWith ['/', '*'] = true := by
    rw [Rest.startsWith_ofList_iff]
    exact h.2
  simp only [hpercent, hslash, Bool.false_eq_true, dite_false]

/-- Skipping where a comment is open to the end. -/
theorem skipLayout_unclosed {text : List Char} (h : Unclosed text) :
    Parser.skipLayout (.ofList text) = Parser.fail "block comment" (Rest.ofList text) := by
  rcases h with ⟨body, rfl, hbody⟩
  rw [Parser.skipLayout, skipWhile_isBlank_of_ne]
  · have hpercent : ¬ (Rest.ofList ('/' :: '*' :: body)).opensWith '%' = true := by
      rw [opensWith_ofList_iff]
      exact by simp only [List.head?_cons, Option.some.injEq, Char.reduceEq, not_false_eq_true]
    have hslash : (Rest.ofList ('/' :: '*' :: body)).startsWith ['/', '*'] = true := by
      rw [Rest.startsWith_ofList_iff]
      exact ⟨body, rfl⟩
    have hlength : blockLength? ((Rest.ofList ('/' :: '*' :: body)).chars.drop 2) = none :=
      (blockLength?_eq_none_iff body).mpr hbody
    simp only [hpercent, hslash, Bool.false_eq_true, dite_true, dite_false, hlength]
  · intro c hc
    rw [List.head?_cons, Option.mem_some_iff] at hc
    exact hc ▸ by decide

/-- Skipping comes to the same on both sides of a blank. -/
theorem skipLayout_blank {c : Char} (h : Text.isBlank c = true) (text : List Char) :
    Parser.skipLayout (.ofList (c :: text)) = Parser.skipLayout (.ofList text) := by
  have hskip : (Rest.ofList (c :: text)).skipWhile Text.isBlank =
      (Rest.ofList text).skipWhile Text.isBlank := by
    rw [Rest.skipWhile_ofList, Rest.skipWhile_ofList, List.dropWhile_cons, if_pos h]
  conv => lhs; rw [Parser.skipLayout]
  conv => rhs; rw [Parser.skipLayout]
  rw [hskip]

/-- Skipping a comment comes to skipping what stands behind its line. -/
theorem skipLayout_percent (text : List Char) :
    Parser.skipLayout (.ofList ('%' :: text)) =
      Parser.skipLayout (Rest.ofList ('%' :: text)).nextLine := by
  conv => lhs; rw [Parser.skipLayout]
  rw [skipWhile_isBlank_of_ne]
  · have hpercent : (Rest.ofList ('%' :: text)).opensWith '%' = true :=
      opensWith_ofList_iff.mpr rfl
    simp only [hpercent, dite_true]
  · intro c hc
    rw [List.head?_cons, Option.mem_some_iff] at hc
    exact hc ▸ by decide

/-- Skipping comes to the same on both sides of a block comment. -/
theorem skipLayout_block {body : List Char} (h : ¬ ['*', '/'] <:+: body) (text : List Char) :
    Parser.skipLayout (.ofList ('/' :: '*' :: (body ++ '*' :: '/' :: text))) =
      Parser.skipLayout (.ofList text) := by
  conv => lhs; rw [Parser.skipLayout]
  rw [skipWhile_isBlank_of_ne]
  · have hpercent :
        ¬ (Rest.ofList ('/' :: '*' :: (body ++ '*' :: '/' :: text))).opensWith '%' = true := by
      rw [opensWith_ofList_iff]
      exact by simp only [List.head?_cons, Option.some.injEq, Char.reduceEq, not_false_eq_true]
    have hslash :
        (Rest.ofList ('/' :: '*' :: (body ++ '*' :: '/' :: text))).startsWith ['/', '*'] = true := by
      rw [Rest.startsWith_ofList_iff]
      exact ⟨_, rfl⟩
    have hlength :
        blockLength? ((Rest.ofList ('/' :: '*' :: (body ++ '*' :: '/' :: text))).chars.drop 2) =
          some (body.length + 2) := blockLength?_append h text
    simp only [hpercent, hslash, Bool.false_eq_true, dite_true, dite_false, hlength]
    rw [Rest.drop_ofList, Nat.add_comm 2, ← List.drop_drop, List.drop_drop]
    have hdrop : ('/' :: '*' :: (body ++ '*' :: '/' :: text)).drop (body.length + 2 + 2) = text := by
      rw [List.drop_succ_cons, List.drop_succ_cons, ← List.drop_drop, List.drop_left]
      rfl
    exact congrArg (fun left => Parser.skipLayout (.ofList left)) hdrop
  · intro c hc
    rw [List.head?_cons, Option.mem_some_iff] at hc
    exact hc ▸ by decide

/-- Skipping comes to the same on both sides of a stretch of layout. -/
theorem skipLayout_eq_of_skips {text left : List Char} (h : Skips text left) :
    Parser.skipLayout (.ofList text) = Parser.skipLayout (.ofList left) := by
  induction h with
  | nil => rfl
  | blank hc _ ih => rw [skipLayout_blank hc, ih]
  | @line line text left hl _ ih =>
      have hline : '\n' ∉ '%' :: line := by
        simp only [List.mem_cons, hl, or_false, Char.reduceEq, not_false_eq_true]
      rw [skipLayout_percent, ← List.cons_append, nextLine_ofList hline, ih]
  | @lastLine line hl =>
      have hline : '\n' ∉ '%' :: line := by
        simp only [List.mem_cons, hl, or_false, Char.reduceEq, not_false_eq_true]
      rw [skipLayout_percent, nextLine_ofList_last hline]
  | block hb _ ih => rw [skipLayout_block hb, ih]

/-- Layout leads to a place where none starts, or to a comment without an end. -/
theorem exists_skips (text : List Char) :
    ∃ left, Skips text left ∧ (Significant left ∨ Unclosed left) := by
  induction hlength : text.length using Nat.strongRecOn generalizing text with
  | _ length ih =>
      rcases text with _ | ⟨c, text⟩
      · exact ⟨[], .nil [], .inl significant_nil⟩
      · subst hlength
        have hlater : ∀ later, later.length ≤ text.length →
            ∃ left, Skips later left ∧ (Significant left ∨ Unclosed left) :=
          fun later hle => ih later.length (Nat.lt_succ_of_le hle) later rfl
        by_cases hblank : Text.isBlank c = true
        · rcases hlater text (Nat.le_refl _) with ⟨left, hskips, hleft⟩
          exact ⟨left, .blank hblank hskips, hleft⟩
        by_cases hpercent : c = '%'
        · subst hpercent
          by_cases hline : '\n' ∈ text
          · rcases List.eq_append_cons_of_mem hline with ⟨line, later, rfl, hnot⟩
            rcases hlater later
              (by simp only [List.length_append, List.length_cons]; omega) with ⟨left, hskips, hleft⟩
            exact ⟨left, .line hnot hskips, hleft⟩
          -- The comment goes on to the end of the text.
          · exact ⟨[], .lastLine hline, .inl significant_nil⟩
        by_cases hslash : ['/', '*'] <+: c :: text
        · rcases hslash with ⟨body, hbody⟩
          rcases List.cons.inj hbody with ⟨rfl, rfl⟩
          -- The comment that opens here has an end or is the one without.
          rcases hend : blockLength? body with _ | n
          · exact ⟨_, .nil _, .inr ⟨body, rfl, (blockLength?_eq_none_iff body).mp hend⟩⟩
          · rcases exists_of_blockLength? hend with ⟨comment, later, rfl, hcomment, -⟩
            rcases hlater later
              (by simp only [List.append_eq, List.length_append, List.length_cons]
                  omega) with ⟨left, hskips, hleft⟩
            exact ⟨left, .block hcomment hskips, hleft⟩
        · refine ⟨_, .nil _, .inl ⟨fun d hd => ?_, hslash⟩⟩
          rw [List.head?_cons, Option.mem_some_iff] at hd
          exact hd ▸ ⟨Bool.not_eq_true _ ▸ hblank, hpercent⟩

/-- Skipping layout drops no failures. -/
theorem skipLayout_cases (text : List Char) :
    (∃ left, Parser.skipLayout (.ofList text) = ⟨.done () (.ofList left), none⟩) ∨
      ∃ failure, Parser.skipLayout (.ofList text) = ⟨.failed failure, none⟩ := by
  rcases exists_skips text with ⟨left, hskips, hleft⟩
  rw [skipLayout_eq_of_skips hskips]
  rcases hleft with hleft | hleft
  · exact .inl ⟨left, skipLayout_significant hleft⟩
  · exact .inr ⟨_, skipLayout_unclosed hleft⟩

/-- What skipping matches is layout, and what is left does not start with any. -/
theorem relates_skipLayout : Relates Parser.skipLayout fun text _ left =>
    Skips text left ∧ Significant left := by
  constructor
  intro text value after h
  rcases exists_skips text with ⟨left, hskips, hleft | hleft⟩
  · rw [skipLayout_eq_of_skips hskips, skipLayout_significant hleft, Outcome.done.injEq] at h
    exact ⟨left, h.2.symm, hskips, hleft⟩
  · rw [skipLayout_eq_of_skips hskips, skipLayout_unclosed hleft, Parser.outcome_fail] at h
    exact absurd h (by simp only [reduceCtorEq, not_false_eq_true])

/-- Skipping takes all the layout there is. -/
theorem reads_skipLayout {E : Abort → Prop} {text left : List Char} (h : Skips text left)
    (hleft : Significant left) :
    ReadsUnless E Parser.skipLayout text () left := by
  refine .inl ?_
  rw [skipLayout_eq_of_skips h, skipLayout_significant hleft]

end Reading

end Tptp
