import Mathlib.Data.Bool.AllAny
import Tptp.Grammar.Signature
import Tptp.Proofs.Syntax.Lexeme
import Tptp.Proofs.WholeText

/-!
# Mappings in Redundant Parentheses

To which layer of the grammar the parentheses of a mapping belong.

A mapping may open with parentheses around its first sort, around its arguments if there
are several of them, and around all of it. Nothing at the parenthesis tells these apart.
The production tries a sort first, then several sorts, and the mapping without what is
around it comes last, so it often gets far before it turns out to be wrong.

What tells the layers apart is where a sort ends. At a mapping that has arguments and
stands in parentheses, a sort is either not read at all or read up to the arrow, and no
closing parenthesis stands there (`stopsAt_wrapped`). So no sort and no list of sorts is
read from the parenthesis on, and the mapping as a whole is left. A mapping without
arguments is a sort, and its parentheses are read as those of the sort.

Depths count the layers that the allowance is spent on: the parentheses, and what they are
around. Arguments in parentheses are one layer more than the sorts, since each of them is
first tried as a single sort in parentheses.

## Main definitions

* `SortStarts`, `SortEnds`: What a sort starts with, and what may follow it.
* `Behind`, `InParens`, `Wrapped`: Something behind a sign and in parentheses.
* `Maps`: Argument sorts and a result, as they are written.
* `Accepts`: A parser reads the sorts that a relation gives.

## Theorems

* `Accepts.reads_wrapped`: Sorts in parentheses.
* `stopsAt_wrapped`: Where a sort ends at a mapping in parentheses.
* `reads_mapping`, `reads_wrappedMapping`: Mappings, and mappings in parentheses.
-/

namespace Tptp

namespace Syntax

open Reading Parser Grammar

variable {α : Type} {E : Abort → Prop} {depth n : Nat} {text inner middle left : List Char}

/-- The characters that may open a sort, with or without parentheses. -/
def SortStarts (text : List Char) : Prop :=
  ∃ c ∈ text.head?, (Text.isWordChar c || decide (c ∈ ['(', '$', '\x27'])) = true

/-- What may follow a sort: what ends a name and opens no arguments. -/
structure SortEnds (text : List Char) : Prop extends TokenEnds text where
  noArguments : text.head? ≠ some '('

theorem SortStarts.ne {c : Char} (h : SortStarts text)
    (hc : (Text.isWordChar c || decide (c ∈ ['(', '$', '\x27'])) = false) :
    text.head? ≠ some c := by
  rcases h with ⟨d, hd, hopens⟩
  rintro hhead
  rw [hhead, Option.mem_some_iff] at hd
  rw [hd, hopens] at hc
  exact absurd hc (by decide)

theorem SortStarts.significant (h : SortStarts text) : Significant text := by
  have hpercent := h.ne (c := '%') (by decide)
  have hslash := h.ne (c := '/') (by decide)
  rcases h with ⟨c, hc, hopens⟩
  rcases List.head?_eq_some_iff.mp hc with ⟨rest, rfl⟩
  refine significant_cons ?_ (fun h => hpercent (congrArg some h))
    (fun h => hslash (congrArg some h))
  rw [Bool.or_eq_true, decide_eq_true_iff] at hopens
  rcases hopens with hword | hmem
  · exact Text.not_isBlank_of_isWordChar c hword
  · exact (List.all_iff_forall_prop (p := fun c => Text.isBlank c = false)).mp (by decide) c hmem

/-- The signs that may follow a sort. -/
def sortStoppers : List Char :=
  [')', ']', ',', '>', '*']

theorem sortEnds_of_head {c : Char} (h : text.head? = some c) (hc : c ∈ sortStoppers) :
    SortEnds text := by
  have hclass : ∀ c ∈ sortStoppers, Text.isWordChar c = false ∧ Text.isBlank c = false ∧
      c ≠ '%' ∧ c ≠ '/' ∧ c ≠ '(' := List.all_iff_forall_prop.mp (by decide)
  rcases hclass c hc with ⟨hword, hblank, hpercent, hslash, hopening⟩
  rcases List.head?_eq_some_iff.mp h with ⟨rest, rfl⟩
  refine ⟨⟨fun d hd => ?_, significant_cons hblank hpercent hslash⟩, fun hhead => ?_⟩
  · exact Option.mem_some_iff.mp hd ▸ hword
  · exact hopening (Option.some.inj hhead)

section

variable (sign : String) (R : List Char → α → List Char → Prop)

/-- Something stands behind a sign. -/
def Behind (text : List Char) (value : α) (left : List Char) : Prop :=
  ∃ middle, SignAt sign text middle ∧ R middle value left

/-- Something stands in a pair of parentheses. -/
def InParens (text : List Char) (value : α) (left : List Char) : Prop :=
  ∃ inner middle, SignAt "(" text inner ∧ R inner value middle ∧ SignAt ")" middle left

end

/-- Something stands in any number of parentheses. -/
def Wrapped (R : Nat → List Char → α → List Char → Prop) :
    Nat → List Char → α → List Char → Prop
  | 0, _, _, _ => False
  | depth + 1, text, value, left =>
    R depth text value left ∨ InParens (Wrapped R depth) text value left

/-- Argument sorts and a result sort stand at the start of a text: no argument, one with an
    arrow behind it, or several in parentheses. -/
inductive Maps (R : Nat → List Char → α → List Char → Prop) :
    Nat → List Char → List α × α → List Char → Prop where
  | constant {depth : Nat} {text left : List Char} {result : α} (h : R depth text result left) :
      Maps R depth text ([], result) left
  | single {depth : Nat} {text middle behind left : List Char} {sort result : α}
      (hsort : R depth text sort middle) (harrow : SignAt ">" middle behind)
      (hresult : R depth behind result left) : Maps R depth text ([sort], result) left
  | product {depth : Nat} {text inner middle last after behind left : List Char}
      {first result : α} {others : List α} (hopening : SignAt "(" text inner)
      (hfirst : R depth inner first middle)
      (hothers : Steps (Behind "*" (R depth)) middle others last) (hne : others ≠ [])
      (hclosing : SignAt ")" last after) (harrow : SignAt ">" after behind)
      (hresult : R (depth + 1) behind result left) :
      Maps R (depth + 1) text (first :: others, result) left

/-- What a relation gives starts as a sort does, and takes a part of the text. -/
structure Shaped (R : List Char → α → List Char → Prop) : Prop where
  starts : ∀ {text value left}, R text value left → SortStarts text
  length_le : ∀ {text value left}, R text value left → left.length ≤ text.length

/-- The parser reads the sorts that a relation gives, and passes over parentheses. -/
structure Accepts (E : Abort → Prop) (q : Nat → Parser α)
    (R : Nat → List Char → α → List Char → Prop) : Prop where
  shaped : ∀ depth, Shaped (R depth)
  misses : ∀ {n text}, text.head? = some '(' → Allows E 1 n → MissesUnless E (q n) text
  reads : ∀ {depth n text value left}, R depth text value left → SortEnds left →
    Allows E depth n → ReadsUnless E (q n) text value left

theorem sortStarts_of_opening (h : SignAt "(" text inner) : SortStarts text :=
  ⟨'(', h.head? rfl, by decide⟩

section

variable {R A : List Char → α → List Char → Prop}

/-- Something with or without parentheses. -/
theorem Shaped.inParens (hR : Shaped R) (hA : Shaped A) :
    Shaped fun text value left => R text value left ∨ InParens A text value left := by
  constructor
  · rintro text value left (h | ⟨inner, middle, hopening, -, -⟩)
    · exact hR.starts h
    · exact sortStarts_of_opening hopening
  · rintro text value left (h | ⟨inner, middle, hopening, h, hclosing⟩)
    · exact hR.length_le h
    · have h1 := hopening.length_le
      have h2 := hA.length_le h
      have h3 := hclosing.length_le
      omega

/-- What is read with and without parentheses is read where there may be some. -/
theorem reads_orParens_of_written {bare others : Parser α} {value : α}
    (hstarts : ∀ {inner middle}, A inner value middle → SortStarts inner)
    (hbare : R text value left → ReadsUnless E bare text value left)
    (hmisses : InParens A text value left → MissesUnless E bare text)
    (hothers : ∀ {inner middle}, A inner value middle → middle.head? = some ')' →
      ReadsUnless E others inner value middle)
    (h : R text value left ∨ InParens A text value left) (hleft : Significant left) :
    ReadsUnless E (orParens bare others) text value left := by
  rcases h with h | h
  · exact reads_orParens (hbare h)
  · -- The parentheses are taken away only after the text was tried with them.
    have hbare := hmisses h
    rcases h with ⟨inner, middle, hopening, h, hclosing⟩
    refine reads_ifOpens (hopening.head? rfl) (.orElse_of_misses hbare ?_)
    exact Reading.reads_parens hopening (hstarts h).significant (hothers h (hclosing.head? rfl))
      hclosing hleft

/-- Sorts with signs in front are read by a loop, and what stands in front of them ends. -/
theorem reads_steps (loop : Parser (List α)) {p : Parser α} {sign : String} {c : Char}
    (hsign : sign.toList = [c]) (hc : c ∈ sortStoppers) (hR : Shaped R)
    (hreads : ∀ {text value left}, R text value left → SortEnds left →
      ReadsUnless E p text value left)
    (hnil : ∀ {left}, left.head? ≠ some c → ReadsUnless E loop left [] left)
    (hcons : ∀ {text middle left value values}, text.head? = some c →
      ReadsUnless E (operator sign >>= fun _ => p) text value middle →
      middle.length < text.length → ReadsUnless E loop middle values left →
      ReadsUnless E loop text (value :: values) left)
    {values : List α} (h : Steps (Behind sign R) text values left) (hleft : SortEnds left)
    (hne : left.head? ≠ some c) : ReadsUnless E loop text values left ∧ SortEnds text := by
  -- From the end of the list on: that an item ends is known from what follows it.
  induction h with
  | nil => exact ⟨hnil hne, hleft⟩
  | cons item _ ih =>
      rcases ih hleft hne with ⟨hothers, hends⟩
      rcases item with ⟨behind, hsignAt, hitem⟩
      have hlt := hsignAt.length_le
      have hle := hR.length_le hitem
      rw [hsign, List.length_singleton] at hlt
      refine ⟨hcons (hsignAt.head? hsign) ?_ (by omega) hothers,
        sortEnds_of_head (hsignAt.head? hsign) hc⟩
      exact (hsignAt.reads (hR.starts hitem).significant).bind (hreads hitem hends)

/-- Sorts with signs between them are read up to the sign that closes the list. -/
theorem reads_separated {p : Parser α} {sign closing : String} {c d : Char} {first : α}
    {others : List α} {behind : List Char} (hsign : sign.toList = [c]) (hc : c ∈ sortStoppers)
    (hclosing : closing.toList = [d]) (hd : d ∈ sortStoppers) (hne : d ≠ c) (hR : Shaped R)
    (hreads : ∀ {text value left}, R text value left → SortEnds left →
      ReadsUnless E p text value left)
    (hfirst : R text first middle) (hothers : Steps (Behind sign R) middle others left)
    (hleft : SignAt closing left behind) :
    ReadsUnless E (sepBy1 p (operator sign)) text (first :: others) left := by
  have hhead := hleft.head? hclosing
  rcases reads_steps (many (operator sign *> p)) hsign hc hR hreads
    (fun hne => .many_nil (.bind (misses_operator hsign hne)))
    (fun _ hp hlt hloop => .many_cons hp hlt hloop) hothers (sortEnds_of_head hhead hd)
    (by rw [hhead, ne_eq, Option.some.injEq]; exact hne) with ⟨hloop, hends⟩
  exact (hreads hfirst hends).bind (hloop.bind (.pure _ _))

end

section

variable {q : Nat → Parser α} {R : Nat → List Char → α → List Char → Prop} {value result : α}
  {sorts : List α}

theorem one_le_of_wrapped (h : Wrapped R depth text value left) : 1 ≤ depth := by
  cases depth with
  | zero => exact h.elim
  | succ depth => exact Nat.succ_pos depth

theorem shaped_wrapped (h : ∀ depth, Shaped (R depth)) (depth : Nat) :
    Shaped (Wrapped R depth) := by
  induction depth with
  | zero => exact ⟨False.elim, False.elim⟩
  | succ depth ih => exact (h depth).inParens ih

namespace Accepts

/-- Sorts are read in parentheses. -/
theorem reads_wrapped (h : Accepts E q R) (hsort : Wrapped R depth text value left)
    (hleft : SortEnds left) (hallows : Allows E depth n) :
    ReadsUnless E (optionalParens q n) text value left := by
  induction depth generalizing n text left with
  | zero => exact hsort.elim
  | succ depth ih =>
      cases n with
      | zero => exact .abort hallows.tooDeep
      | succ n =>
          have hinner := hallows.of_succ
          refine reads_orParens_of_written (shaped_wrapped h.shaped depth).starts
            (fun hsort => h.reads hsort hleft hinner) ?_
            (fun hsort hhead => ih hsort (sortEnds_of_head hhead (by decide)) hinner) hsort
            hleft.significant
          -- In a parenthesis there is at least one layer, and missing takes no more than that.
          rintro ⟨_, _, hopening, hsort, -⟩
          exact h.misses (hopening.head? rfl)
            (hinner.mono (one_le_of_wrapped hsort) (Nat.le_refl n))

end Accepts

/-- The parser misses, or it stops in front of this character. -/
def StopsAt (E : Abort → Prop) (p : Parser α) (c : Char) (text : List Char) : Prop :=
  MissesUnless E p text ∨ ∃ value left, ReadsUnless E p text value left ∧ left.head? = some c

/-- What does not stop at a closing parenthesis is not read in parentheses. -/
theorem StopsAt.parens {p : Parser α} {c : Char} (h : StopsAt E p c inner) (hc : c ≠ ')')
    (hopening : SignAt "(" text inner) (hinner : Significant inner) :
    MissesUnless E (parens p) text := by
  refine .labeled _ (.then (hopening.reads hinner) ?_)
  rcases h with h | ⟨value, left, h, hhead⟩
  · exact h.bind
  · refine .then h (.bind (misses_operator (c := ')') rfl ?_))
    rw [hhead, ne_eq, Option.some.injEq]
    exact hc

/-- In parentheses around something else there is no sort. -/
theorem Accepts.misses_opening (h : Accepts E q R) {c : Char} (hopening : SignAt "(" text inner)
    (hinner : Significant inner) (hc : c ≠ ')') (hallows : Allows E 2 n)
    (hstops : ∀ {n'}, n = n' + 1 → StopsAt E (optionalParens q n') c inner) :
    MissesUnless E (optionalParens q n) text := by
  cases n with
  | zero => exact .abort hallows.tooDeep
  | succ n =>
      exact misses_ifOpens (hopening.head? rfl) (.orElse
        (h.misses (hopening.head? rfl) hallows.of_succ)
        ((hstops rfl).parens hc hopening hinner))

theorem one_le_of_maps {v : List α × α} (h : Maps (Wrapped R) depth text v left) : 1 ≤ depth := by
  cases h with
  | constant h => exact one_le_of_wrapped h
  | single h => exact one_le_of_wrapped h
  | product => exact Nat.succ_pos _

theorem one_le_of_wrappedMaps {v : List α × α}
    (h : Wrapped (Maps (Wrapped R)) (depth + 1) text v left) : 1 ≤ depth := by
  rcases h with h | ⟨_, _, -, h, -⟩
  · exact one_le_of_maps h
  · exact one_le_of_wrapped h

theorem sortStarts_of_maps {v : List α × α} (h : ∀ depth, Shaped (R depth))
    (hm : Maps R depth text v left) : SortStarts text := by
  cases hm with
  | constant hsort => exact (h _).starts hsort
  | single hsort => exact (h _).starts hsort
  | product hopening => exact sortStarts_of_opening hopening

/-- Several sorts in parentheses are not one. -/
theorem Accepts.misses_product (h : Accepts E q R) {others : List α} {last : List Char}
    (hopening : SignAt "(" text inner) (hfirst : Wrapped R depth inner value middle)
    (hothers : Steps (Behind "*" (Wrapped R depth)) middle others last) (hne : others ≠ [])
    (hallows : Allows E (depth + 1) n) : MissesUnless E (optionalParens q n) text := by
  have hpos := one_le_of_wrapped hfirst
  refine h.misses_opening (c := '*') hopening
    ((shaped_wrapped h.shaped _).starts hfirst).significant (by decide)
    (hallows.mono (Nat.succ_le_succ hpos) (Nat.le_refl n)) fun hn => ?_
  -- The first of them is read, but a star stands where the parenthesis would have to be closed.
  cases hothers with
  | nil => exact absurd rfl hne
  | cons item =>
      rcases item with ⟨_, hstar, -⟩
      have hends := sortEnds_of_head (hstar.head? rfl) (by decide)
      exact .inr ⟨_, _, h.reads_wrapped hfirst hends (hn ▸ hallows).of_succ, hstar.head? rfl⟩

/-- A single sort stops in front of the arrow, and several sorts are none. -/
theorem stopsAt_maps (h : Accepts E q R) (hm : Maps (Wrapped R) depth text (sorts, result) left)
    (hne : sorts ≠ []) (hallows : Allows E depth n) :
    StopsAt E (optionalParens q n) '>' text := by
  cases hm with
  | constant => exact absurd rfl hne
  | single hsort harrow =>
      have hends := sortEnds_of_head (harrow.head? rfl) (by decide)
      exact .inr ⟨_, _, h.reads_wrapped hsort hends hallows, harrow.head? rfl⟩
  | product hopening hfirst hothers hmore =>
      exact .inl (h.misses_product hopening hfirst hothers hmore hallows)

theorem sortStarts_of_wrappedMaps {v : List α × α} (h : ∀ depth, Shaped (R depth))
    (hm : Wrapped (Maps R) depth text v left) : SortStarts text := by
  cases depth with
  | zero => exact hm.elim
  | succ depth =>
      rcases hm with hm | ⟨_, _, hopening, -, -⟩
      · exact sortStarts_of_maps h hm
      · exact sortStarts_of_opening hopening

/-- At a mapping in parentheses, a sort is not read as far as a closing parenthesis. -/
theorem stopsAt_wrapped (h : Accepts E q R)
    (hm : Wrapped (Maps (Wrapped R)) (depth + 1) text (sorts, result) left) (hne : sorts ≠ [])
    (hallows : Allows E depth n) : StopsAt E (optionalParens q n) '>' text := by
  -- What stops at an arrow in a pair of parentheses does not reach the end of the pair, so
  -- around it nothing is read at all.
  induction depth generalizing n text left with
  | zero =>
      rcases hm with hm | ⟨_, _, -, hm, -⟩
      · exact stopsAt_maps h hm hne hallows
      · exact hm.elim
  | succ depth ih =>
      rcases hm with hm | ⟨inner, middle, hopening, hm, -⟩
      · exact stopsAt_maps h hm hne hallows
      · have hpos := one_le_of_wrappedMaps hm
        refine .inl (h.misses_opening (c := '>') hopening
          (sortStarts_of_wrappedMaps (shaped_wrapped h.shaped) hm).significant (by decide)
          (hallows.mono (by omega) (Nat.le_refl n)) fun hn => ?_)
        exact ih hm (hn ▸ hallows).of_succ

/-- A mapping without arguments is a sort. -/
theorem wrapped_of_constant (h : Wrapped (Maps (Wrapped R)) (depth + 1) text ([], result) left) :
    Wrapped R depth text result left := by
  induction depth generalizing text left with
  | zero =>
      rcases h with h | ⟨_, _, -, h, -⟩
      · cases h with
        | constant h => exact h
      · exact h.elim
  | succ depth ih =>
      rcases h with h | ⟨inner, middle, hopening, h, hclosing⟩
      · cases h with
        | constant h => exact h
      · exact .inr ⟨inner, middle, hopening, ih h, hclosing⟩

/-- Where the arguments of a mapping are missed there are none. -/
theorem reads_mapping_constant {item : Parser α} (hitem : ReadsUnless E item text result left)
    (harrow : left.head? ≠ some '>') : ReadsUnless E (mapping item) text ([], result) left := by
  have harguments : MissesUnless E (mappingArguments item) text :=
    .then (ReadsUnless.orElse (hitem.map fun sort => [sort]))
      (.bind (misses_operator (c := '>') rfl harrow))
  exact (ReadsUnless.orElse_of_misses harguments (.pure [] text)).bind (hitem.bind (.pure _ _))

/-- Mappings are read. -/
theorem reads_mapping (h : Accepts E q R) (hm : Maps (Wrapped R) depth text (sorts, result) left)
    (hleft : SortEnds left) (harrow : left.head? ≠ some '>') (hallows : Allows E depth n) :
    ReadsUnless E (mapping (optionalParens q n)) text (sorts, result) left := by
  have hshaped := shaped_wrapped h.shaped
  cases hm with
  | constant hsort => exact reads_mapping_constant (h.reads_wrapped hsort hleft hallows) harrow
  | single hsort hsign hresult =>
      have hends := sortEnds_of_head (hsign.head? rfl) (by decide)
      have hsorts := (h.reads_wrapped hsort hends hallows).map fun sort => [sort]
      refine .bind (.orElse (.bind (.orElse hsorts) (.bind
        (hsign.reads ((hshaped _).starts hresult).significant) (.pure _ _)))) ?_
      exact (h.reads_wrapped hresult hleft hallows).bind (.pure _ _)
  | @product depth _ inner _ _ _ _ _ first _ others hopening hfirst hothers hne hclosing hsign
      hresult =>
      -- The parenthesis is tried as that of a single sort first.
      have hmisses := h.misses_product hopening hfirst hothers hne hallows
      have hitems := hallows.mono (Nat.le_succ depth) (Nat.le_refl n)
      have hsorts : ReadsUnless E (sepBy1 (optionalParens q n) (operator "*")) inner
          (first :: others) _ :=
        reads_separated rfl (by decide) rfl (by decide) (by decide) (hshaped depth)
          (fun hsort hends => h.reads_wrapped hsort hends hitems) hfirst hothers hclosing
      have hbehind := (sortEnds_of_head (hsign.head? rfl) (by decide)).significant
      refine .bind (.orElse (.bind (.orElse_of_misses hmisses.map (Reading.reads_parens hopening
        ((hshaped _).starts hfirst).significant hsorts hclosing hbehind))
        (.bind (hsign.reads ((hshaped _).starts hresult).significant) (.pure _ _)))) ?_
      exact (h.reads_wrapped hresult hleft hallows).bind (.pure _ _)

/-- Behind the parenthesis in front of a mapping there are no arguments of another one. -/
theorem misses_mapping_of_parens (h : Accepts E q R) (hopening : SignAt "(" text inner)
    (hm : Wrapped (Maps (Wrapped R)) depth inner (sorts, result) middle) (hne : sorts ≠ [])
    (hallows : Allows E depth n) : MissesUnless E (mapping (optionalParens q n)) text := by
  have hinner := (sortStarts_of_wrappedMaps (shaped_wrapped h.shaped) hm).significant
  cases depth with
  | zero => exact hm.elim
  | succ depth =>
      have hpos := one_le_of_wrappedMaps hm
      -- Neither one sort stands in the parentheses nor several, and no result either.
      have hitem : MissesUnless E (optionalParens q n) text :=
        h.misses_opening (c := '>') hopening hinner (by decide)
          (hallows.mono (Nat.succ_le_succ hpos) (Nat.le_refl n)) fun hn =>
          stopsAt_wrapped h hm hne (hn ▸ hallows).of_succ
      have hproduct : StopsAt E (sepBy1 (optionalParens q n) (operator "*")) '>' inner := by
        rcases stopsAt_wrapped h hm hne (hallows.mono (Nat.le_succ depth) (Nat.le_refl n)) with
          hmisses | ⟨sort, behind, hsort, hhead⟩
        · exact .inl hmisses.bind
        · refine .inr ⟨[sort], behind, hsort.bind (.bind (.many_nil (.bind
            (misses_operator (c := '*') rfl ?_))) (.pure _ _)), hhead⟩
          rw [hhead]
          decide
      exact .then (.orElse_of_misses (.bind (.orElse hitem.map
        (hproduct.parens (by decide) hopening hinner))) (.pure [] text)) hitem.bind

/-- Mappings are read in parentheses. -/
theorem reads_wrappedMapping (h : Accepts E q R)
    (hm : Wrapped (Maps (Wrapped R)) depth text (sorts, result) left) (hleft : SortEnds left)
    (harrow : left.head? ≠ some '>') (hallows : Allows E depth n) :
    ReadsUnless E (optionalParens (fun n => mapping (optionalParens q n)) n) text (sorts, result)
      left := by
  induction depth generalizing n text left with
  | zero => exact hm.elim
  | succ depth ih =>
      cases n with
      | zero => exact .abort hallows.tooDeep
      | succ n =>
          have hinner := hallows.of_succ
          by_cases hsorts : sorts = []
          · subst hsorts
            -- The parentheses are those of the result.
            exact reads_orParens (reads_mapping_constant
              (h.reads_wrapped (wrapped_of_constant hm) hleft hinner) harrow)
          refine reads_orParens_of_written
            (sortStarts_of_wrappedMaps (shaped_wrapped h.shaped))
            (fun hm => reads_mapping h hm hleft harrow hinner) ?_ ?_ hm hleft.significant
          · rintro ⟨_, _, hopening, hm, -⟩
            exact misses_mapping_of_parens h hopening hm hsorts hinner
          · intro inner middle hm hhead
            exact ih hm (sortEnds_of_head hhead (by decide)) (by rw [hhead]; decide) hinner
end

end Syntax

end Tptp
