import Mathlib.Data.List.Find
import Tptp.Proofs.Embedding.Mirror

/-!
# Reading Inside of a Larger Text

Composed parsers read a text alike in every larger one.

The primitives see no difference as long as there is something left of the text, since
a line ends behind it. Where nothing is left none of them matches, but for layout, and
neither does it at the sign behind the text: no word, number or quotation starts with
one of these signs, and closing brackets and commas are looked for only at places at
which a bracket is open.

## Theorems

* `mirroredAt_skipLayout`, `mirrored_sign`, `mirrored_named`: Layout and words.
* `mirrored_between`: Brackets.
* `Composed.mirrored`: Composed parsers.
-/

namespace Tptp

namespace Reading

variable {α : Type} {close : Char} {later : List Char} {commas : Bool} {text : List Char}

/-- The surplus of a sheltered place is known. -/
theorem Sheltered.ne_none (h : Sheltered close commas text) : surplus text ≠ none := by
  rcases h with ⟨k, hk, -⟩
  rw [hk]
  exact Option.some_ne_none k

/-- A number of characters is taken of both texts. -/
theorem Mirrors.drop {long : List Char} (h : Embeds close later text long) {n : Nat} (value : α)
    (hn : n ≤ text.length) (hpos : 0 < n) :
    Mirrors close later (.done value ((Rest.ofList text).drop n))
      (.done value ((Rest.ofList long).drop n)) := by
  rw [Rest.drop_ofList, Rest.drop_ofList]
  exact .done (h.drop hn hpos)

/-- Layout is skipped alike, unless it has no end. -/
theorem mirroredAt_skipLayout (hclose : Closes close) (h : surplus text ≠ none) :
    MirroredAt close later Parser.skipLayout text := by
  intro long hlong
  have hsign : Significant (close :: later) := by
    rcases hclose with rfl | rfl
    · exact significant_cons (by decide) (by decide) (by decide)
    · exact significant_cons (by decide) (by decide) (by decide)
  have hdone : ∀ {text left}, Skips text left → Significant left →
      (Parser.skipLayout (.ofList text)).outcome = .done () (.ofList left) := by
    intro text left hskips hleft
    rw [skipLayout_eq_of_skips hskips, skipLayout_significant hleft]
  rcases exists_skips text with ⟨left, hskips, hleft | hunclosed⟩
  -- The layout of the text comes to an end. If this is the end of the text, the line behind
  -- it is skipped as well.
  · rw [hdone hskips hleft]
    cases hlong with
    | line =>
        by_cases hnil : left = []
        · rw [hnil] at hskips ⊢
          rw [hdone (hskips.append_line (close :: later)) hsign]
          exact .done .last
        · rcases hskips.exists_gap hnil with ⟨gap, hgap, rfl⟩
          rw [List.append_assoc, hdone (hgap.skips _) (hleft.append hnil rfl (by decide))]
          exact .done (.line left)
    | last =>
        have hnil : left = [] := List.length_eq_zero_iff.mp (Nat.le_zero.mp hskips.length_le)
        rw [hnil, hdone (.nil _) hsign]
        exact .done .last
  -- A comment has no end, so no surplus is known.
  · exact absurd (hskips.surplus_eq.trans (surplus_of_unclosed hunclosed)) h

section

variable {word : List Char}

/-- A bland word has a first character, which closes no text. -/
theorem exists_head_of_isBlandWord (hclose : Closes close) (h : isBlandWord word = true) :
    ∃ c, word.head? = some c ∧ c ≠ close := by
  rcases word with _ | ⟨c, word⟩
  · exact absurd h (by decide)
  · refine ⟨c, rfl, ?_⟩
    rintro rfl
    have hbland := all_isBland_of_isBlandWord h
    rw [List.all_cons, Bool.and_eq_true] at hbland
    rcases hclose with rfl | rfl
    · exact absurd hbland.1 (by decide)
    · exact absurd hbland.1 (by decide)

theorem ne_nil_of_isBlandWord (h : isBlandWord word = true) : word ≠ [] := by
  rintro rfl
  exact absurd h (by decide)

/-- A bland word stands in the larger text if it stands in the text. -/
theorem startsWith_of_isBlandWord (hclose : Closes close) (h : isBlandWord word = true)
    {long : List Char} (hlong : Embeds close later text long) :
    (Rest.ofList long).startsWith word = (Rest.ofList text).startsWith word := by
  rcases exists_head_of_isBlandWord hclose h with ⟨c, hhead, hne⟩
  exact startsWith_of_embeds hhead (newline_not_mem (all_isPlain_of_isBlandWord h)) (.inr hne)
    hlong

/-- The same of a whole word. -/
theorem hasWord_of_isBlandWord (hclose : Closes close) (h : isBlandWord word = true)
    {long : List Char} (hlong : Embeds close later text long) :
    (Rest.ofList long).hasWord word = (Rest.ofList text).hasWord word := by
  by_cases hnil : text = []
  · have hstarts := startsWith_of_isBlandWord hclose h hlong
    have hfalse : (Rest.ofList text).startsWith word = false := by
      rw [hnil, ← Bool.not_eq_true, Rest.startsWith_ofList_iff]
      exact fun hprefix => ne_nil_of_isBlandWord h (List.prefix_nil.mp hprefix)
    rw [Rest.hasWord, Rest.hasWord, hstarts, hfalse, Bool.false_and, Bool.false_and]
  · rw [hlong.eq_append hnil]
    exact hasWord_append (newline_not_mem (all_isPlain_of_isBlandWord h)) (by decide) rfl text

end

theorem mirrored_sign (hclose : Closes close) (label : String) {sign : String}
    (h : isBlandWord sign.toList = true) :
    Mirrored close later commas (Parser.expect label sign Rest.startsWith) :=
  fun _ _ => mirroredAt_expect (fun h => h) (ne_nil_of_isBlandWord h)
    (startsWith_of_isBlandWord hclose h)

theorem mirrored_wholeWord (hclose : Closes close) (label : String) {word : String}
    (h : isBlandWord word.toList = true) :
    Mirrored close later commas (Parser.expect label word Rest.hasWord) :=
  fun _ _ => mirroredAt_expect (fun h => (Bool.and_eq_true _ _ ▸ h).1) (ne_nil_of_isBlandWord h)
    (hasWord_of_isBlandWord hclose h)

theorem mirrored_named (hclose : Closes close) {V : Type} [Vocabulary V]
    (h : ∀ v : V, isBlandWord (Vocabulary.canonical v).toList = true) :
    Mirrored close later commas (Parser.named V) := by
  intro text _ long hlong
  have hsame : ∀ entry ∈ Vocabulary.nameTable V,
      (Rest.ofList long).hasWord entry.1.toList = (Rest.ofList text).hasWord entry.1.toList := by
    intro entry hmem
    have hname : Vocabulary.canonical entry.2 = entry.1 := Vocabulary.mem_nameTable.mp hmem
    exact hasWord_of_isBlandWord hclose (hname ▸ h entry.2) hlong
  rw [Parser.named, Parser.named, List.find?_congr hsame]
  split
  · next name v hfound =>
      rw [hfound]
      rcases stands_of_find? hfound with ⟨rfl, hstands⟩
      exact Mirrors.drop hlong v hstands.starts.length_le
        (List.length_pos_iff.mpr (ne_nil_of_isBlandWord (h v)))
  · next hfound =>
      rw [hfound]
      exact .failed _ _

/-- The end of a line and a sign behind a text start no word. -/
theorem not_isWordChar_of_embeds (hclose : Closes close) {long : List Char}
    (h : long = [] ∨ Embeds close later [] long) :
    ∀ c ∈ long.head?, Text.isWordChar c = false ∧ c ≠ '+' ∧ c ≠ '-' ∧ c ≠ '\x27' ∧ c ≠ '"' := by
  intro c hc
  rcases h with rfl | h
  · exact absurd hc (Option.not_mem_none c)
  · rcases h.head?_nil with ⟨d, hd, hhead⟩
    rw [hhead, Option.mem_some_iff] at hc
    subst hc
    rcases List.mem_cons.mp hd with rfl | hd
    · decide
    · rw [List.mem_singleton.mp hd]
      rcases hclose with rfl | rfl <;> decide

theorem mirrored_word (hclose : Closes close) (label : String) {first : Char → Bool}
    (hfirst : ∀ c, first c = true → Text.isWordChar c = true) :
    Mirrored close later commas (Parser.word label first) := by
  intro text _
  rcases text with _ | ⟨c, text⟩
  · refine .of_failed fun h => (misses_word label fun c hc => ?_).fails
    rw [← Bool.not_eq_true]
    intro hc'
    have hnot := (not_isWordChar_of_embeds hclose h c hc).1
    rw [hfirst c hc'] at hnot
    exact Bool.false_ne_true hnot.symm
  · intro long hlong
    have hrun : (text ++ '\n' :: close :: later).takeWhile Text.isWordChar =
        text.takeWhile Text.isWordChar := takeWhile_append (by decide) rfl text
    have happend := hlong.eq_append (List.cons_ne_nil c text)
    have hdrop : Embeds close later ((c :: text).drop (c :: text.takeWhile Text.isWordChar).length)
        (long.drop (c :: text.takeWhile Text.isWordChar).length) :=
      hlong.drop (Nat.succ_le_succ (List.takeWhile_prefix _).length_le) (Nat.succ_pos _)
    rw [happend, List.cons_append] at hdrop ⊢
    rw [Parser.word, Parser.word]
    simp only [Rest.chars_ofList, hrun]
    split
    · rw [Rest.drop_ofList, Rest.drop_ofList]
      exact .done hdrop
    · exact .failed _ _

theorem mirrored_quoted (hclose : Closes close) {quote : Char}
    (hquote : quote = '\x27' ∨ quote = '"') :
    Mirrored close later commas (Parser.quoted quote) := by
  intro text htext
  have hback : quote ≠ '\\' := by
    rcases hquote with rfl | rfl <;> decide
  have hfailed : ∀ {long : List Char}, long.head? ≠ some quote →
      ∃ failure, (Parser.quoted quote (.ofList long)).outcome = .failed failure := by
    intro long hne
    rw [Parser.quoted, if_neg (mt opensWith_ofList_iff.mp hne)]
    exact ⟨_, rfl⟩
  rcases text with _ | ⟨c, text⟩
  · refine .of_failed fun h => hfailed fun hhead => ?_
    have hnot := (not_isWordChar_of_embeds hclose h quote hhead).2.2.2
    exact hquote.elim hnot.1 hnot.2
  · by_cases hc : c = quote
    · subst hc
      -- The quotation has an end, since the number of open brackets is known.
      rcases hdecode : Text.Quoted.decode c text with _ | ⟨value, extent⟩
      · refine absurd ?_ htext.ne_none
        have hstep : advance (c :: text) = none := by
          rw [advance_quote hquote, hdecode, Option.map_none]
        rw [surplus]
        split
        · next hfound =>
            rw [hstep] at hfound
            exact absurd hfound.symm (Option.some_ne_none _)
        · rfl
      · rcases Text.Quoted.spells_of_decode hdecode with ⟨chars, left, rfl, hspells, rfl⟩
        intro long hlong
        have hmore := Text.Quoted.decode_of_spells hback hspells
          (left ++ '\n' :: close :: later)
        rw [← List.append_assoc] at hmore
        have hdrop := hlong.drop (n := chars.length + 1) (by
          rw [List.length_cons, List.length_append]
          omega) (Nat.succ_pos _)
        rw [hlong.eq_append (List.cons_ne_nil _ _), List.cons_append] at hdrop ⊢
        rw [quoted_of_decode hmore, quoted_of_decode hdecode, Rest.drop_ofList, Rest.drop_ofList]
        exact .done hdrop
    · refine .of_failed fun {long} h => hfailed fun hhead => hc ?_
      rcases h with rfl | h
      · exact Option.some.inj hhead
      · rcases h.cons with ⟨rest, rfl, -⟩
        exact Option.some.inj hhead

theorem mirrored_numeral (hclose : Closes close) :
    Mirrored close later commas Parser.numeral := by
  intro text _
  rcases text with _ | ⟨c, text⟩
  · refine .of_failed fun h => (misses_numeral fun c hc => ?_).fails
    refine Bool.eq_false_iff.mpr fun hdigit => ?_
    have hnot := (not_isWordChar_of_embeds hclose h c hc).1
    rw [Text.isWordChar_of_isDigit hdigit] at hnot
    exact Bool.false_ne_true hnot.symm
  · intro long hlong
    have hne := List.cons_ne_nil c text
    have hrun : long.takeWhile Char.isDigit = (c :: text).takeWhile Char.isDigit := by
      rw [hlong.eq_append hne]
      exact takeWhile_append (by decide) rfl (c :: text)
    rw [numeral_apply, numeral_apply, hrun]
    split
    · exact .failed _ _
    · next hdigits =>
        split
        · exact .aborted _
        · refine Mirrors.drop hlong _ (List.takeWhile_prefix _).length_le ?_
          exact List.length_pos_iff.mpr fun hnil => hdigits (List.isEmpty_iff.mpr hnil)

theorem mirrored_decimalLiteral (hclose : Closes close) :
    Mirrored close later commas Parser.decimalLiteral := by
  intro text _ long hlong
  have hscan : DecimalLiteral.scan? long = DecimalLiteral.scan? text := by
    by_cases hnil : text = []
    · subst hnil
      have hnone : ∀ {long}, long = [] ∨ Embeds close later [] long →
          DecimalLiteral.scan? long = none := by
        refine fun h => DecimalLiteral.scan?_eq_none fun c hc => ?_
        rcases not_isWordChar_of_embeds hclose h c hc with ⟨hword, hplus, hminus, -⟩
        rw [Bool.or_eq_false_iff, Bool.or_eq_false_iff, beq_eq_false_iff_ne, beq_eq_false_iff_ne]
        refine ⟨⟨Bool.eq_false_iff.mpr fun hdigit => ?_, hplus⟩, hminus⟩
        rw [Text.isWordChar_of_isDigit hdigit] at hword
        exact Bool.false_ne_true hword.symm
      rw [hnone (.inl rfl), hnone (.inr hlong)]
    · rw [hlong.eq_append hnil]
      exact DecimalLiteral.scan?_append_layout rfl (by decide) text
  rw [Parser.decimalLiteral, Parser.decimalLiteral, Rest.chars_ofList, Rest.chars_ofList, hscan]
  rcases hliteral : DecimalLiteral.scan? text with _ | literal
  · exact .failed _ _
  · rcases NumberSpelling.exists_cons (.decimal (DecimalLiteral.valid_of_scan? hliteral)) with
      ⟨c, rest, hchars, -⟩
    refine Mirrors.drop hlong literal (DecimalLiteral.isPrefix_chars hliteral).length_le ?_
    rw [hchars]
    exact Nat.succ_pos _

/-- A sign and the layout behind it. -/
theorem mirroredAt_operator (hclose : Closes close) {sign : String}
    (hsign : MirroredAt close later (Parser.expect "operator" sign Rest.startsWith) text)
    (hlayout : ∀ {left}, text = sign.toList ++ left → surplus left ≠ none) :
    MirroredAt close later (Parser.operator sign) text := by
  refine .bind hsign fun {_ left} hdone => .bind (mirroredAt_skipLayout hclose ?_) fun _ =>
    .pure _ _
  rcases (relates_expect fun h => h).sound hdone with ⟨last, hlast, -, htext⟩
  exact hlayout (Rest.ofList_inj hlast ▸ htext)

/-- A sign that is no start of a comment, and neither ends lines nor closes texts. -/
theorem mirroredAt_sign {label sign : String} {c : Char} (hhead : sign.toList.head? = some c)
    (hline : '\n' ∉ sign.toList) (hclose : text ≠ [] ∨ c ≠ close) :
    MirroredAt close later (Parser.expect label sign Rest.startsWith) text := by
  refine mirroredAt_expect (fun h => h) ?_ (startsWith_of_embeds hhead hline hclose)
  rintro hnil
  rw [hnil] at hhead
  exact absurd hhead.symm (Option.some_ne_none c)

/-- Behind the opening bracket of a pair one more bracket is to be closed. -/
theorem Sheltered.exists_neg {opening closing : String} (hpair : IsBracketPair opening closing)
    {inner : List Char} {sign : String} (h : Sheltered close commas text)
    (hdone : (Parser.operator opening (.ofList text)).outcome = .done sign (.ofList inner)) :
    ∃ k, surplus inner = some k ∧ k < 0 := by
  rcases h with ⟨k, hk, hle, -⟩
  rcases (relates_operator_surplus fun left => (surplus_bracketPair hpair left).1).sound hdone with
    ⟨last, hlast, heq⟩
  rw [← Rest.ofList_inj hlast, hk] at heq
  rcases Option.map_eq_some_iff.mp heq.symm with ⟨n, hn, hsum⟩
  exact ⟨n, hn, by omega⟩

/-- What stands between brackets is read alike. -/
theorem mirrored_between (hclose : Closes close) {opening closing : String}
    (hpair : IsBracketPair opening closing) {p : Parser α} (hbalanced : Balanced p)
    (hp : Mirrored close later true p) :
    Mirrored close later commas (Parser.between opening closing p) := by
  intro text htext
  have hopening : MirroredAt close later (Parser.operator opening) text := by
    refine mirroredAt_operator hclose ?_ fun {left} heq hnone => htext.ne_none ?_
    · rcases hpair with ⟨rfl, -⟩ | ⟨rfl, -⟩
      · refine mirroredAt_sign (c := '(') rfl (by decide) (.inr ?_)
        rcases hclose with rfl | rfl <;> decide
      · refine mirroredAt_sign (c := '[') rfl (by decide) (.inr ?_)
        rcases hclose with rfl | rfl <;> decide
    · rw [heq, (surplus_bracketPair hpair left).1, hnone, Option.map_none]
  refine .bind hopening fun {_ inner} hdone => ?_
  -- Behind the opening bracket every sign is sheltered from, commas included.
  rcases htext.exists_neg hpair hdone with ⟨k, hk, hneg⟩
  refine .bind (hp ⟨k, hk, Int.le_of_lt hneg, fun _ => hneg⟩) fun {value left} hvalue => ?_
  rcases hbalanced.sound hvalue with ⟨last, hlast, hleft⟩
  rw [← Rest.ofList_inj hlast, hk] at hleft
  -- A bracket is open here, so the text is not at its end.
  have hne : left ≠ [] := by
    rintro rfl
    rw [surplus_nil, Option.some.injEq] at hleft
    omega
  refine .bind (mirroredAt_operator hclose ?_ fun {behind} heq hnone => ?_) fun _ => .pure _ _
  · rcases hpair with ⟨-, rfl⟩ | ⟨-, rfl⟩
    · exact mirroredAt_sign (c := ')') rfl (by decide) (.inl hne)
    · exact mirroredAt_sign (c := ']') rfl (by decide) (.inl hne)
  · rw [heq, (surplus_bracketPair hpair behind).2, hnone, Option.map_none] at hleft
    exact Option.some_ne_none k hleft

/-- Inside of brackets a comma is read alike. -/
theorem mirrored_comma (hclose : Closes close) :
    Mirrored close later true (Parser.operator ",") := by
  intro text htext
  refine mirroredAt_operator hclose (mirroredAt_sign (c := ',') rfl (by decide) ?_)
    fun {left} heq hnone => htext.ne_none ?_
  -- At the end of the text no bracket is open, but this place is inside of one.
  · by_contra hnot
    rw [not_or, not_not, not_not] at hnot
    rw [hnot.1, ← hnot.2] at htext
    exact absurd htext.mem_closers (by decide)
  · rw [heq, surplus_append (by decide), hnone]

/-- A parser behind a bland character. -/
theorem mirrored_behind (hclose : Closes close) {p q : Parser α} {c : Char}
    (hc : isBland c = true) (hp : Mirrored close later commas p)
    (hq : Mirrored close later commas q) :
    Mirrored close later commas (Parser.ifOpens c (Parser.take 1 >>= fun _ => p) q) := by
  intro text htext long hlong
  have hsame : long.head? = some c ↔ text.head? = some c := by
    rcases text with _ | ⟨d, text⟩
    -- Where the text ends, the larger one goes on with a sign that is not bland.
    · rcases hlong.head?_nil with ⟨d, hd, hhead⟩
      refine iff_of_false (fun h => ?_) (Option.some_ne_none c).symm
      rw [hhead, Option.some.injEq] at h
      rcases List.mem_cons.mp hd with rfl | hd
      · exact absurd (h ▸ hc) (by decide)
      · rw [← h, List.mem_singleton.mp hd] at hc
        rcases hclose with rfl | rfl <;> exact absurd hc (by decide)
    · rcases hlong.cons with ⟨rest, rfl, -⟩
      rfl
  rw [Parser.outcome_ifOpens, Parser.outcome_ifOpens]
  by_cases hopens : text.head? = some c
  · rw [if_pos (opensWith_ofList_iff.mpr hopens),
      if_pos (opensWith_ofList_iff.mpr (hsame.mpr hopens))]
    rcases List.head?_eq_some_iff.mp hopens with ⟨inner, rfl⟩
    rcases hlong.cons with ⟨rest, rfl, hrest⟩
    have hsurplus : surplus (c :: inner) = surplus inner :=
      surplus_of_weight (advance_of_walks (walks_of_isPlain (isPlain_of_isBland hc)) inner)
        (bracketWeight_of_isBland hc)
    have hinner := hp (htext.of_eq hsurplus) hrest
    rw [Parser.outcome_bind, Parser.outcome_bind]
    simpa only [Parser.take, Rest.drop_ofList, List.drop_succ_cons, List.drop_zero] using hinner
  · rw [if_neg (mt opensWith_ofList_iff.mp hopens),
      if_neg (mt opensWith_ofList_iff.mp (mt hsame.mp hopens))]
    exact hq htext hlong

/-- Composed parsers read a text alike in every larger one. -/
theorem Composed.mirrored (hclose : Closes close) {p : Parser α}
    (h : Composed false commas p) : Mirrored close later commas p := by
  induction h with
  | pure a => exact fun _ _ => .pure a _
  | fail label => exact fun _ _ => .of_failed fun _ => ⟨_, rfl⟩
  | abort reason => exact fun _ _ _ _ => .aborted reason
  | bind hp _ ihp ihnext =>
      exact fun _ htext => .bind (ihp htext) fun hdone =>
        ihnext _ (htext.behind hp.balanced hdone)
  | labeled label _ ih => exact fun _ htext => (ih htext).labeled label
  | orElse _ _ ihp ihq => exact fun _ htext => (ihp htext).orElse (ihq htext)
  | @look _ _ p hend _ _ ih =>
      intro text htext long hlong
      -- The character that decides may be missing in the text, but then it is a closing sign
      -- in the larger one, and these decide as the end of the text does.
      have hchosen : p long.head? = p text.head? := htext.look hlong (hend rfl)
      change Mirrors close later (p text.head? (.ofList text)).outcome
        (p long.head? (.ofList long)).outcome
      rw [hchosen]
      exact ih _ htext hlong
  | many hend hp ih =>
      exact .many hp.balanced ih hend.fails
  | repeatWhile inSight hnone hend _ hp ih =>
      exact .repeatWhile inSight hnone (hend rfl) hp.balanced ih
  | layout => exact fun _ htext => mirroredAt_skipLayout hclose htext.ne_none
  | sign label hbland => exact mirrored_sign hclose label hbland
  | comma => exact mirrored_comma hclose
  | enclosed hpair hp ih => exact mirrored_between hclose hpair hp.balanced ih
  | wholeWord label hbland => exact mirrored_wholeWord hclose label hbland
  | named hbland => exact mirrored_named hclose hbland
  | word label hfirst => exact mirrored_word hclose label hfirst
  | quoted hquote => exact mirrored_quoted hclose hquote
  | numeral => exact mirrored_numeral hclose
  | decimalLiteral => exact mirrored_decimalLiteral hclose
  | behind hc _ _ ihp ihq => exact mirrored_behind hclose hc ihp ihq
  | slash hp hclear _ ihp ihnext =>
      refine fun text htext => .bind (ihp htext) fun {a middle} hfirst => ?_
      have hmiddle := htext.behind hp.balanced hfirst
      refine .bind (mirroredAt_sign (c := '/') rfl (by decide) (.inr ?_)) fun {_ left} hslash => ?_
      · rcases hclose with rfl | rfl <;> decide
      -- The slash opens no comment, so no sign behind it is sheltered by one.
      · rcases relates_slash.sound hslash with ⟨behind, hbehind, -, rfl⟩
        rw [Rest.ofList_inj hbehind]
        exact ihnext a (hmiddle.of_eq (surplus_slash (hclear hfirst)))
  | stop hstops => exact absurd hstops Bool.false_ne_true

end Reading

end Tptp
