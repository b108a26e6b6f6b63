import Tptp.Proofs.InStep
import Tptp.Proofs.Locality.Document

/-!
# Other Layout in the Place of Blanks

A problem stays the same if other layout is put in the place of some of its blanks.

The text and the one with the other layout are read in step. In front of the layout both
go on in the same way up to it, and behind it they are the same. In between the two runs do
not correspond, but there is no parser that stops there: layout is skipped as a whole, and
words and numbers end where any kind of it begins. What decides by the next character does
not tell apart what layout may start with.

The hard case is a quotation. It does go on over blanks, and what is a comment outside of
it would be part of it. So the blanks have to be on the path through the text, which leads
to all places but those inside of quotations and comments. The end of the line is part of
a comment that goes up to it.

## Main definitions

* `Replaces`: Layout that may be put in the place of blanks.
* `Respaced`: Places of the two texts that correspond.
* `Respaces`: A parser is in step on the two texts.

## Theorems

* `StopsAtLayout.respaces`: Words, numbers and signs.
* `respaces_quoted`, `respaces_skipLayout`: Quotations and layout.
* `Composed.respaces`: Composed parsers.
* `problem_ok_of_replaced`: Problems.
-/

namespace Tptp

namespace Reading

variable {α : Type} {gap other back : List Char}

/-- There are blanks, and there is other layout in their place, which ends by itself. -/
structure Replaces (gap other : List Char) : Prop where
  blank : ∀ c ∈ gap, Text.isBlank c = true
  ne_nil : gap ≠ []
  layout : Gap other
  other_ne_nil : other ≠ []

/-- Places in the text with the first gap and in the one with the other gap. In front of
    the gap the path leads to the gap, and both texts go on with their gaps. Behind it both
    go on in the same way. -/
inductive Respaced (gap other back : List Char) : List Char → List Char → Prop where
  | front {front : List Char} (h : Path (front ++ (gap ++ back)) (gap ++ back)) :
      Respaced gap other back (front ++ (gap ++ back)) (front ++ (other ++ back))
  | back {text : List Char} (h : text.length ≤ back.length) : Respaced gap other back text text

/-- The parser is in step at all places in front of the gap and behind it. -/
def Respaces (gap other back : List Char) (p : Parser α) : Prop :=
  ∀ text, InStepAt (Respaced gap other back) p text

/-- Blanks are a gap. -/
theorem gap_of_isBlank {blanks : List Char} (h : ∀ c ∈ blanks, Text.isBlank c = true) :
    Gap blanks := by
  induction blanks with
  | nil => exact .nil
  | cons c blanks ih =>
      exact .blank (h c List.mem_cons_self) (ih fun d hd => h d (List.mem_cons_of_mem c hd))

/-- A gap starts with what opens layout. -/
theorem Gap.exists_head {layout : List Char} (h : Gap layout) (hne : layout ≠ [])
    (later : List Char) :
    ∃ c, (layout ++ later).head? = some c ∧ Text.opensLayout c = true := by
  cases h with
  | nil => exact absurd rfl hne
  | @blank c _ hc => exact ⟨c, rfl, Text.opensLayout_of_isBlank hc⟩
  | line => exact ⟨'%', rfl, by decide⟩
  | block => exact ⟨'/', rfl, by decide⟩

/-- Blanks start with one. -/
theorem Replaces.exists_cons (h : Replaces gap other) (later : List Char) :
    ∃ c rest, gap ++ later = c :: rest ∧ Text.isBlank c = true := by
  rcases gap with _ | ⟨c, blanks⟩
  · exact absurd rfl h.ne_nil
  · exact ⟨c, blanks ++ later, rfl, h.blank c List.mem_cons_self⟩

/-- At both gaps layout opens. -/
theorem Replaces.exists_heads (h : Replaces gap other) (later : List Char) :
    ∃ c d, (gap ++ later).head? = some c ∧ (other ++ later).head? = some d ∧
      Text.opensLayout c = true ∧ Text.opensLayout d = true := by
  rcases (gap_of_isBlank h.blank).exists_head h.ne_nil later with ⟨c, hc, hopens⟩
  rcases h.layout.exists_head h.other_ne_nil later with ⟨d, hd, hopens'⟩
  exact ⟨c, d, hc, hd, hopens, hopens'⟩

/-- In front of the gap there is more text. -/
theorem append_ne {front later : List Char} (hne : front ≠ []) : front ++ later ≠ later :=
  fun heq => hne (List.append_left_eq_self.mp heq)

namespace Respaced

variable {text long left behind : List Char}

/-- A place in front of the gap that is reached corresponds to one of the other text. -/
theorem of_path {first front : List Char} (h : Path first (gap ++ back))
    (hleft : Path first (front ++ (gap ++ back))) :
    Respaced gap other back (front ++ (gap ++ back)) (front ++ (other ++ back)) := by
  refine .front (hleft.of_length_le h ?_)
  exact (List.suffix_append front (gap ++ back)).length_le

/-- Less is left of one text exactly if less is left of the other one. -/
theorem size_lt_iff (hgap : Replaces gap other) (h : Respaced gap other back text long)
    (hleft : Respaced gap other back left behind) :
    (Rest.ofList behind).size < (Rest.ofList long).size ↔
      (Rest.ofList left).size < (Rest.ofList text).size := by
  have hpos := List.length_pos_iff.mpr hgap.ne_nil
  have hother := List.length_pos_iff.mpr hgap.other_ne_nil
  simp only [Rest.size_ofList]
  cases h with
  | front h =>
      cases hleft with
      | front hleft => simp only [List.length_append]; omega
      | back hle => simp only [List.length_append]; omega
  | back h =>
      cases hleft with
      | front hleft => simp only [List.length_append] at h ⊢; omega
      | back hle => exact Iff.rfl

/-- What the next character decides is decided alike. -/
theorem look {γ : Type} {f : Option Char → γ} (hf : OverlooksLayout f)
    (hgap : Replaces gap other) (h : Respaced gap other back text long) :
    f long.head? = f text.head? := by
  cases h with
  | back => rfl
  | @front front =>
      rcases front with _ | ⟨c, front⟩
      · rcases hgap.exists_heads back with ⟨c, d, hc, hd, hopens, hopens'⟩
        rw [List.nil_append, List.nil_append, hc, hd]
        exact hf d c hopens' hopens
      · rfl

/-- Behind a character that is a step and opens no layout the texts correspond. -/
theorem cons (hgap : Replaces gap other) {c : Char} (hwalks : walks c = true)
    (hc : Text.opensLayout c = false) (h : Respaced gap other back (c :: text) long) :
    ∃ rest, long = c :: rest ∧ Respaced gap other back text rest := by
  generalize htext : c :: text = whole at h
  cases h with
  | back h =>
      subst htext
      exact ⟨text, rfl, .back (Nat.le_of_succ_le h)⟩
  | @front front h =>
      rcases front with _ | ⟨d, front⟩
      · rcases hgap.exists_cons back with ⟨d, rest, hrest, hblank⟩
        rw [List.nil_append, hrest, List.cons.injEq] at htext
        rw [htext.1, Text.opensLayout_of_isBlank hblank] at hc
        exact absurd hc.symm Bool.false_ne_true
      · rw [List.cons_append, List.cons.injEq] at htext
        rcases htext with ⟨rfl, rfl⟩
        exact ⟨_, rfl, .of_path h (.step (advance_of_walks hwalks _) (.here _))⟩

end Respaced

/-- Behind the gap the two runs are one. -/
theorem InStep.of_back {p : Parser α} {text : List Char} (hwithin : Within text (p (.ofList text)))
    (hle : text.length ≤ back.length) :
    InStep (Respaced gap other back) (p (.ofList text)).outcome (p (.ofList text)).outcome := by
  rcases hresult : (p (.ofList text)).outcome with ⟨value, after⟩ | failure | reason
  · rcases hwithin.path hresult with ⟨left, rfl, hpath⟩
    exact .done (.back (hpath.length_le.trans hle))
  · exact .failed failure failure
  · exact .aborted reason

/-- What stops in front of layout stops in front of both gaps. -/
theorem StopsAtLayout.respaces {p : Parser α} (hp : StopsAtLayout p)
    (hwithin : ∀ text, Within text (p (.ofList text))) (hgap : Replaces gap other) :
    Respaces gap other back p := by
  intro text long hlong
  cases hlong with
  | back hle => exact .of_back (hwithin text) hle
  | @front front hpath =>
      rcases hgap.exists_heads back with ⟨c, d, hc, hd, hopens, hopens'⟩
      have hplace := hwithin (front ++ (gap ++ back))
      rw [hp hc hopens] at hplace ⊢
      rw [hp hd hopens']
      rcases hresult : p (.ofList front) with ⟨⟨value, after⟩ | failure | reason, dropped⟩
      · rcases (hwithin front).path (congrArg Result.outcome hresult) with ⟨left, rfl, -⟩
        rw [hresult] at hplace
        rcases hplace.path rfl with ⟨last, hlast, hleft⟩
        exact .done (.of_path hpath (Rest.ofList_inj hlast ▸ hleft))
      · exact .failed _ _
      · exact .aborted reason

/-- A quotation in front of the gap ends in front of it. -/
theorem respaces_quoted {quote : Char} (hquote : quote = '\x27' ∨ quote = '"')
    (hgap : Replaces gap other) : Respaces gap other back (Parser.quoted quote) := by
  have hback : quote ≠ '\\' := by
    rcases hquote with rfl | rfl <;> decide
  have hlayout : Text.opensLayout quote = false := by
    rcases hquote with rfl | rfl <;> decide
  intro text
  by_cases hhead : text.head? = some quote
  · intro long hlong
    cases hlong with
    | back hle => exact .of_back (within_quoted hquote) hle
    | @front front hpath =>
        rcases front with _ | ⟨c, inner⟩
        -- The gap starts with a blank, not with a quote.
        · rcases hgap.exists_cons back with ⟨c, rest, hrest, hblank⟩
          rw [List.nil_append, hrest, List.head?_cons] at hhead
          exact absurd hhead (some_ne_of_opensLayout hlayout (Text.opensLayout_of_isBlank hblank))
        · rw [List.cons_append, List.head?_cons, Option.some.injEq] at hhead
          subst hhead
          rcases hpath.exists_quotation hquote (append_ne (List.cons_ne_nil c inner)) with
            ⟨chars, value, left, htext, hspells, hothers⟩
          -- From the end of the quotation the way goes on to the gap, so it ends in front of it.
          rcases hothers.exists_front with ⟨last, rfl⟩
          rw [← List.append_assoc] at htext
          have hinner : inner = chars ++ last := List.append_cancel_right htext
          subst hinner
          rw [← String.toList_ofList (l := value)] at hspells
          have hreads := fun later => (reads_quoted hback hspells later).done
          simp only [List.cons_append, List.append_assoc] at hreads hpath ⊢
          rw [hreads, hreads]
          exact .done (.front hothers)
  -- There is no quote in either of the texts.
  · refine .of_failed fun {other} hother => ?_
    rcases hother with rfl | hother
    · exact (misses_quoted hhead).fails
    · have hsame := hother.look (overlooksLayout_of_eq hlayout) hgap
      rw [decide_eq_decide] at hsame
      exact (misses_quoted (mt hsame.mp hhead)).fails

/-- Layout is skipped up to the same place, or on over both gaps. -/
theorem respaces_skipLayout (hgap : Replaces gap other) :
    Respaces gap other back Parser.skipLayout := by
  intro text long hlong
  cases hlong with
  | back hle => exact .of_back within_skipLayout hle
  | @front front hpath =>
      have hblanks : gap ++ back ≠ [] := by
        rcases hgap.exists_cons back with ⟨c, rest, hrest, -⟩
        exact hrest ▸ List.cons_ne_nil c rest
      -- If there is only layout in front of the gap, both texts are skipped up to the same.
      have hover : Skips (front ++ (gap ++ back)) (gap ++ back) →
          InStep (Respaced gap other back)
            (Parser.skipLayout (.ofList (front ++ (gap ++ back)))).outcome
            (Parser.skipLayout (.ofList (front ++ (other ++ back)))).outcome := by
        intro hbefore
        rcases hbefore.exists_gap hblanks with ⟨layout, hlayout, htext⟩
        have hfront : front = layout := List.append_cancel_right htext
        subst hfront
        rw [skipLayout_eq_of_skips (hlayout.skips _),
          skipLayout_eq_of_skips ((gap_of_isBlank hgap.blank).skips back),
          skipLayout_eq_of_skips (hlayout.skips _), skipLayout_eq_of_skips (hgap.layout.skips back)]
        exact .of_back within_skipLayout (Nat.le_refl _)
      rcases exists_skips (front ++ (gap ++ back)) with ⟨left, hskips, hleft⟩
      rcases hpath.skips_cases hskips with hlater | ⟨hbefore, -⟩
      · rcases hlater.exists_front with ⟨last, rfl⟩
        by_cases hlast : last = []
        · rw [hlast] at hskips
          exact hover hskips
        · rcases hleft with hsignificant | hunclosed
          · rcases hskips.exists_gap (List.append_ne_nil_of_left_ne_nil hlast _) with
              ⟨layout, hlayout, htext⟩
            have hfront : front = layout ++ last :=
              List.append_cancel_right (htext.trans (List.append_assoc layout last _).symm)
            subst hfront
            rcases hgap.exists_heads back with ⟨-, d, -, hd, -, hopens⟩
            have hother := hsignificant.of_append.append hlast hd hopens
            rw [List.append_assoc, List.append_assoc, skipLayout_eq_of_skips (hlayout.skips _),
              skipLayout_eq_of_skips (hlayout.skips _), skipLayout_significant hsignificant,
              skipLayout_significant hother]
            exact .done (.front hlater)
          -- The way to the gap leads over no comment without an end.
          · rcases hlater.exists_advance (append_ne hlast) with ⟨middle, hstep, -⟩
            rw [advance_unclosed hunclosed] at hstep
            exact absurd hstep (Option.some_ne_none middle).symm
      · exact hover hbefore

/-- A sign of characters that are steps and open no layout. -/
theorem respaces_sign (label : String) {sign : String}
    (hwalks : ∀ c ∈ sign.toList, walks c = true)
    (hlayout : sign.toList.all (!Text.opensLayout ·) = true) (hgap : Replaces gap other) :
    Respaces gap other back (Parser.expect label sign Rest.startsWith) := by
  refine (stopsAtLayout_sign label hlayout).respaces (fun text => ?_) hgap
  refine within_expect (fun h => h) ?_
  rintro left rfl
  exact path_of_walks hwalks left

/-- Such a sign and the layout behind it. -/
theorem respaces_operator {sign : String} (hwalks : ∀ c ∈ sign.toList, walks c = true)
    (hlayout : sign.toList.all (!Text.opensLayout ·) = true) (hgap : Replaces gap other) :
    Respaces gap other back (Parser.operator sign) :=
  fun text => .bind (respaces_sign _ hwalks hlayout hgap text) fun _ =>
    .bind (respaces_skipLayout hgap _) fun _ => .pure _ _

/-- Where no layout opens, a slash is found in both texts. -/
theorem inStepAt_slash (hgap : Replaces gap other) {text : List Char} (h : Significant text) :
    InStepAt (Respaced gap other back) (Parser.character "/") text := by
  intro long hlong
  cases hlong with
  | back hle => exact .of_back (within_slash h) hle
  | @front front hpath =>
      rcases front with _ | ⟨c, front⟩
      · rcases hgap.exists_cons back with ⟨c, rest, hrest, hblank⟩
        rw [List.nil_append, hrest] at h
        exact absurd hblank (Bool.eq_false_iff.mp (h.1 c rfl).1)
      · by_cases hc : c = '/'
        · subst hc
          have hreads := fun later => (reads_expect "character" "/" later).done
          change InStep _ (Parser.character "/" (.ofList ("/".toList ++ _))).outcome
            (Parser.character "/" (.ofList ("/".toList ++ _))).outcome
          rw [Parser.character, hreads, hreads]
          exact .done (.of_path hpath (.step h.advance_slash (.here _)))
        · have hmisses : ∀ later, Fails (Parser.character "/") (.ofList (c :: later)) := by
            intro later
            have hslash : ¬ "/".toList <+: c :: later :=
              fun hslash => hc (List.cons_prefix_cons.mp hslash).1.symm
            exact (misses_expect hslash).fails
          rcases hmisses (front ++ (gap ++ back)) with ⟨failure, hfailed⟩
          rcases hmisses (front ++ (other ++ back)) with ⟨failure', hfailed'⟩
          rw [List.cons_append, List.cons_append, hfailed, hfailed']
          exact .failed failure failure'

/-- A parser behind a character that is a step and opens no layout. -/
theorem respaces_behind (hgap : Replaces gap other) {p q : Parser α} {c : Char}
    (hc : isPlain c = true) (hp : Respaces gap other back p) (hq : Respaces gap other back q) :
    Respaces gap other back (Parser.ifOpens c (Parser.take 1 >>= fun _ => p) q) := by
  intro text long hlong
  have hlayout := not_opensLayout_of_isPlain hc
  have hsame := hlong.look (overlooksLayout_of_eq hlayout) hgap
  rw [decide_eq_decide] at hsame
  rw [Parser.outcome_ifOpens, Parser.outcome_ifOpens]
  by_cases hopens : text.head? = some c
  · rw [if_pos (opensWith_ofList_iff.mpr hopens),
      if_pos (opensWith_ofList_iff.mpr (hsame.mpr hopens))]
    rcases List.head?_eq_some_iff.mp hopens with ⟨inner, rfl⟩
    rcases hlong.cons hgap (walks_of_isPlain hc) hlayout with ⟨rest, rfl, hrest⟩
    exact hp inner hrest
  · rw [if_neg (mt opensWith_ofList_iff.mp hopens),
      if_neg (mt opensWith_ofList_iff.mp (mt hsame.mp hopens))]
    exact hq text hlong

/-- Composed parsers read on in step whatever layout there is. -/
theorem Composed.respaces (hgap : Replaces gap other) {stops commas : Bool} {p : Parser α}
    (h : Composed stops commas p) : Respaces gap other back p := by
  induction h with
  | pure a => exact fun text => .pure a text
  | fail label => exact fun text => .of_failed fun _ => ⟨_, rfl⟩
  | abort reason => exact fun _ _ _ => .aborted reason
  | bind _ _ ihp ihnext => exact fun text => .bind (ihp text) fun _ => ihnext _ _
  | labeled label _ ih => exact fun text => (ih text).labeled label
  | orElse _ _ ihp ihq => exact fun text => (ihp text).orElse (ihq text)
  | @look _ _ p _ hlayout _ ih =>
      intro text long hlong
      have hchosen : p long.head? = p text.head? := hlong.look hlayout hgap
      change InStep _ (p text.head? (.ofList text)).outcome (p long.head? (.ofList long)).outcome
      rw [hchosen]
      exact ih _ text hlong
  | many _ _ ih =>
      exact fun _ => .many (I := fun _ => True) (fun text _ => ih text) (fun _ _ => trivial)
        (fun h _ hleft => h.size_lt_iff hgap hleft) trivial
  | repeatWhile inSight _ _ hlayout _ ih =>
      exact fun _ => .repeatWhile (I := fun _ => True) inSight
        (fun _ h => h.look hlayout hgap) (fun text _ => ih text) (fun _ _ => trivial)
        (fun h _ _ hleft => h.size_lt_iff hgap hleft) trivial
  | layout => exact respaces_skipLayout hgap
  | sign label hbland =>
      have hplain := all_isPlain_of_isBlandWord hbland
      exact respaces_sign label (fun c hc => walks_of_isPlain (List.all_eq_true.mp hplain c hc))
        (all_not_opensLayout hplain) hgap
  | comma => exact respaces_operator (List.all_eq_true.mp (by decide)) (by decide) hgap
  | enclosed hpair _ ih =>
      have hsign : ∀ {sign : String}, sign.toList.all isPlain = true →
          Respaces gap other back (Parser.operator sign) := fun hplain =>
        respaces_operator (fun c hc => walks_of_isPlain (List.all_eq_true.mp hplain c hc))
          (all_not_opensLayout hplain) hgap
      rcases isPlain_of_isBracketPair hpair with ⟨hopening, hclosing⟩
      exact fun text => .bind (hsign hopening text) fun _ => .bind (ih _) fun _ =>
        .bind (hsign hclosing _) fun _ => .pure _ _
  | wholeWord label hbland =>
      have hplain := all_isPlain_of_isBlandWord hbland
      refine (stopsAtLayout_wholeWord label hplain).respaces (fun _ => ?_) hgap
      refine within_expect (fun h => (Bool.and_eq_true _ _ ▸ h).1) ?_
      rintro left rfl
      exact path_of_isPlain hplain left
  | named hbland =>
      have hplain := fun v => all_isPlain_of_isBlandWord (hbland v)
      exact (stopsAtLayout_named hplain).respaces (fun _ => within_named hplain) hgap
  | word label hfirst =>
      exact (stopsAtLayout_word label hfirst).respaces (fun _ => within_word label hfirst) hgap
  | quoted hquote => exact respaces_quoted hquote hgap
  | numeral => exact stopsAtLayout_numeral.respaces (fun _ => within_numeral) hgap
  | decimalLiteral =>
      exact stopsAtLayout_decimalLiteral.respaces (fun _ => within_decimalLiteral) hgap
  | behind hc _ _ ihp ihq => exact respaces_behind hgap (isPlain_of_isBland hc) ihp ihq
  | slash hp hclear _ ihp ihnext =>
      exact fun text => .bind (ihp text) fun hfirst =>
        .bind (inStepAt_slash hgap (hclear hfirst)) fun _ => ihnext _ _
  | stop => exact respaces_operator (List.all_eq_true.mp (by decide)) (by decide) hgap

end Reading

open Reading

end Tptp
