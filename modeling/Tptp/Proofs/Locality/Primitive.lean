import Mathlib.Data.List.Find
import Tptp.Proofs.Locality.Local

/-!
# What Follows a Full Stop Does Not Matter

Composed parsers without the full stop are local everywhere.

The primitives read words, numbers, quotations and layout. A word or a number that
reaches the end of the text does not go on behind it, since what is added starts on a
new line; it does not go on behind any layout. A quotation and layout could go on, but not
in front of a full stop. The one primitive that takes points is that of decimals, and a
point inside of a decimal has a digit behind it, which a full stop has not.

## Main definitions

* `StopsAtLayout`: A parser that does not see what stands behind layout.

## Theorems

* `stopsAtLayout_sign`, `stopsAtLayout_word`, `stopsAtLayout_numeral`: Words and numbers
  in front of layout.
* `Agrees.expect`, `localAt_named`, `localAt_word`: Words.
* `localAt_quoted`, `localAt_skipLayout`: Quotations and layout.
* `localAt_numeral`, `localAt_decimalLiteral`: Numbers.
* `Composed.localAt`: Composed parsers.
-/

namespace Tptp

namespace Reading

variable {α : Type}

/-- A word is found at the start of a text whatever stands behind the text, from a
    character on that is not one of the word. -/
theorem isPrefixOf_append {word tail : List Char} {c : Char} (hword : c ∉ word)
    (htail : tail.head? = some c) (text : List Char) :
    word.isPrefixOf (text ++ tail) = word.isPrefixOf text := by
  induction word generalizing text with
  | nil => simp only [List.isPrefixOf_nil_left]
  | cons d word ih =>
      rcases text with _ | ⟨e, text⟩
      · rcases List.head?_eq_some_iff.mp htail with ⟨rest, rfl⟩
        have hne : (d == c) = false := by
          rw [beq_eq_false_iff_ne]
          rintro rfl
          exact hword List.mem_cons_self
        change (d == c && word.isPrefixOf rest) = false
        rw [hne, Bool.false_and]
      · rw [List.cons_append, List.isPrefixOf, List.isPrefixOf,
          ih fun hmem => hword (List.mem_cons_of_mem d hmem)]

/-- A run of characters of a class ends in front of a character that is not in it. -/
theorem takeWhile_append {p : Char → Bool} {c : Char} (hp : p c = false) {tail : List Char}
    (htail : tail.head? = some c) (text : List Char) :
    (text ++ tail).takeWhile p = text.takeWhile p := by
  induction text with
  | nil =>
      rcases List.head?_eq_some_iff.mp htail with ⟨rest, rfl⟩
      rw [List.nil_append, List.takeWhile_cons, hp]
      rfl
  | cons d text ih => rw [List.cons_append, List.takeWhile_cons, List.takeWhile_cons, ih]

/-- The next character lies in a class whatever follows from a character on that does not. -/
theorem any_head?_append {p : Char → Bool} {c : Char} (hp : p c = false) {tail : List Char}
    (htail : tail.head? = some c) (text : List Char) :
    (text ++ tail).head?.any p = text.head?.any p := by
  rcases text with _ | ⟨d, text⟩
  · rw [List.nil_append, htail, Option.any_some, hp]
    rfl
  · rfl

/-- A whole word is one whatever follows behind a character that no word goes on with. -/
theorem hasWord_append {word tail : List Char} {c : Char} (hword : c ∉ word)
    (hc : Text.isWordChar c = false) (htail : tail.head? = some c) (text : List Char) :
    (Rest.ofList (text ++ tail)).hasWord word = (Rest.ofList text).hasWord word := by
  rw [Rest.hasWord, Rest.hasWord, Rest.startsWith_ofList, Rest.startsWith_ofList,
    isPrefixOf_append hword htail]
  by_cases hstarts : word.isPrefixOf text = true
  · have hle := (List.isPrefixOf_iff_prefix.mp hstarts).length_le
    rw [Rest.chars_ofList, Rest.chars_ofList, List.drop_append_of_le_length hle,
      any_head?_append hc htail]
  · rw [Bool.not_eq_true] at hstarts
    rw [hstarts, Bool.false_and, Bool.false_and]

/-- No plain character opens layout. -/
theorem all_not_opensLayout {word : List Char} (h : word.all isPlain = true) :
    word.all (!Text.opensLayout ·) = true :=
  List.all_eq_true.mpr fun c hc =>
    (Bool.not_eq_true' _).mpr (not_opensLayout_of_isPlain (List.all_eq_true.mp h c hc))

theorem not_mem_of_opensLayout {word : List Char} (h : word.all (!Text.opensLayout ·) = true)
    {c : Char} (hc : Text.opensLayout c = true) : c ∉ word := by
  intro hmem
  rw [(Bool.not_eq_true' _).mp (List.all_eq_true.mp h c hmem)] at hc
  exact Bool.false_ne_true hc

/-- No plain character ends a line. -/
theorem newline_not_mem {word : List Char} (h : word.all isPlain = true) : '\n' ∉ word :=
  not_mem_of_opensLayout (all_not_opensLayout h) (by decide)

/-- A plain word in front of a full stop ends in front of it. -/
theorem Path.behind_isPlain {word left stop : List Char} (h : word.all isPlain = true)
    (hpath : Path (word ++ left) stop) (hstop : FullStop stop) : Path left stop := by
  refine hpath.behind_walks (fun c hc => walks_of_isPlain (List.all_eq_true.mp h c hc)) ?_ hstop
  intro back hback hne hfull
  rcases back with _ | ⟨c, back⟩
  · exact hne rfl
  · refine hfull.ne_cons ?_ _ rfl
    rintro rfl
    exact absurd (List.all_eq_true.mp h '.' (hback.subset List.mem_cons_self)) (by decide)

theorem isPlain_of_all_isWordChar {word : List Char} (h : word.all Text.isWordChar = true) :
    word.all isPlain = true :=
  List.all_eq_true.mpr fun c hc => isPlain_of_isWordChar (List.all_eq_true.mp h c hc)

/-- A match of some characters is one with more text at the end. -/
theorem done_extend (value : α) {n : Nat} (text tail : List Char) (h : n ≤ text.length) :
    (⟨.done value ((Rest.ofList (text ++ tail)).drop n), none⟩ : Result α) =
      (⟨.done value ((Rest.ofList text).drop n), none⟩ : Result α).extend tail := by
  rw [Rest.drop_ofList, Rest.drop_ofList, List.drop_append_of_le_length h]
  rfl

/-- The parser is done with a text before layout behind it, so it does not matter that there
    is some, nor what comes then. -/
def StopsAtLayout (p : Parser α) : Prop :=
  ∀ ⦃text tail : List Char⦄ ⦃c : Char⦄, tail.head? = some c → Text.opensLayout c = true →
    p (.ofList (text ++ tail)) = (p (.ofList text)).extend tail

/-- A sign is the same whatever follows, if the test for it is. -/
theorem expect_extend {label sign : String} {test : Rest → List Char → Bool}
    {text tail : List Char}
    (htest : ∀ {rest chars}, test rest chars = true → rest.startsWith chars = true)
    (happend : test (.ofList (text ++ tail)) sign.toList = test (.ofList text) sign.toList) :
    Parser.expect label sign test (.ofList (text ++ tail)) =
      (Parser.expect label sign test (.ofList text)).extend tail := by
  rw [Parser.expect, happend, Parser.expect]
  split
  · next h =>
      have hstarts := htest h
      rw [Rest.startsWith_ofList_iff] at hstarts
      exact done_extend sign text tail hstarts.length_le
  · exact Agrees.fail_extend _ text tail

theorem stopsAtLayout_sign (label : String) {sign : String}
    (h : sign.toList.all (!Text.opensLayout ·) = true) :
    StopsAtLayout (Parser.expect label sign Rest.startsWith) := by
  refine fun text tail c htail hc => expect_extend (fun h => h) ?_
  rw [Rest.startsWith_ofList, Rest.startsWith_ofList,
    isPrefixOf_append (not_mem_of_opensLayout h hc) htail]

theorem stopsAtLayout_wholeWord (label : String) {word : String}
    (h : word.toList.all isPlain = true) :
    StopsAtLayout (Parser.expect label word Rest.hasWord) :=
  fun _ _ _ htail hc => expect_extend (fun h => (Bool.and_eq_true _ _ ▸ h).1)
    (hasWord_append (not_mem_of_opensLayout (all_not_opensLayout h) hc)
      (Text.not_isWordChar_of_opensLayout hc) htail _)

theorem stopsAtLayout_named {V : Type} [Vocabulary V]
    (hplain : ∀ v : V, (Vocabulary.canonical v).toList.all isPlain = true) :
    StopsAtLayout (Parser.named V) := by
  intro text tail c htail hc
  have hsame : ∀ entry ∈ Vocabulary.nameTable V,
      (Rest.ofList (text ++ tail)).hasWord entry.1.toList =
        (Rest.ofList text).hasWord entry.1.toList := by
    intro entry hmem
    have hname : Vocabulary.canonical entry.2 = entry.1 := Vocabulary.mem_nameTable.mp hmem
    exact hasWord_append (not_mem_of_opensLayout (all_not_opensLayout (hname ▸ hplain entry.2)) hc)
      (Text.not_isWordChar_of_opensLayout hc) htail text
  rw [Parser.named, Parser.named, List.find?_congr hsame]
  split
  · next name v hfound =>
      rw [hfound]
      rcases stands_of_find? hfound with ⟨rfl, hstands⟩
      exact done_extend v text tail hstands.starts.length_le
  · next hfound =>
      rw [hfound]
      exact Agrees.fail_extend _ text tail

theorem stopsAtLayout_word (label : String) {first : Char → Bool}
    (hfirst : ∀ c, first c = true → Text.isWordChar c = true) :
    StopsAtLayout (Parser.word label first) := by
  intro text tail c htail hc
  have hword := Text.not_isWordChar_of_opensLayout hc
  rcases text with _ | ⟨d, text⟩
  · rcases List.head?_eq_some_iff.mp htail with ⟨rest, rfl⟩
    have hnot : first c = false := by
      rw [← Bool.not_eq_true]
      intro hf
      rw [hfirst c hf] at hword
      exact Bool.false_ne_true hword.symm
    have hfail := Agrees.fail_extend (α := String) label [] (c :: rest)
    rw [List.nil_append] at hfail ⊢
    rw [Parser.word, Parser.word]
    simp only [Rest.chars_ofList, hnot, Bool.false_eq_true, if_false]
    exact hfail
  · have hrun := takeWhile_append hword htail text
    rw [Parser.word, Parser.word]
    simp only [Rest.chars_ofList, List.cons_append, hrun]
    split
    · refine done_extend _ (d :: text) tail ?_
      exact Nat.succ_le_succ (List.takeWhile_prefix _).length_le
    · exact Agrees.fail_extend _ (d :: text) tail

section

variable {text : List Char}

/-- A sign that is found whatever follows, where the path behind it leads to the full stop. -/
theorem Agrees.expect {label sign : String} {test : Rest → List Char → Bool}
    {stop tail : List Char}
    (htest : ∀ {rest chars}, test rest chars = true → rest.startsWith chars = true)
    (hstable : Parser.expect label sign test (.ofList (text ++ tail)) =
      (Parser.expect label sign test (.ofList text)).extend tail)
    (hbehind : ∀ {left}, text = sign.toList ++ left → Path left stop) :
    Agrees stop tail (Parser.expect label sign test) text := by
  refine ⟨hstable, fun hdone => ?_⟩
  rcases (relates_expect htest).sound hdone with ⟨last, hlast, -, htext⟩
  exact hbehind (Rest.ofList_inj hlast ▸ htext)

/-- A plain sign is found whatever follows. -/
theorem localAt_sign (label : String) {sign : String} (hplain : sign.toList.all isPlain = true) :
    LocalAt (Parser.expect label sign Rest.startsWith) text := by
  intro stop tail hpath hstop htail
  refine .expect (fun h => h)
    (stopsAtLayout_sign label (all_not_opensLayout hplain) htail (by decide)) ?_
  rintro left rfl
  exact hpath.behind_isPlain hplain hstop

theorem localAt_wholeWord (label : String) {word : String}
    (hplain : word.toList.all isPlain = true) :
    LocalAt (Parser.expect label word Rest.hasWord) text := by
  intro stop tail hpath hstop htail
  refine .expect (fun h => (Bool.and_eq_true _ _ ▸ h).1)
    (stopsAtLayout_wholeWord label hplain htail (by decide)) ?_
  rintro left rfl
  exact hpath.behind_isPlain hplain hstop

/-- A slash in front of no star is found whatever follows. -/
theorem localAt_slash (h : Significant text) : LocalAt (Parser.character "/") text := by
  intro stop tail hpath hstop htail
  refine .expect (fun h => h) (expect_extend (fun h => h) ?_) ?_
  · rw [Rest.startsWith_ofList, Rest.startsWith_ofList, isPrefixOf_append (by decide) htail]
  · rintro left rfl
    exact hpath.behind_step h.advance_slash (hstop.ne_cons (by decide) _)

theorem localAt_named {V : Type} [Vocabulary V]
    (hplain : ∀ v : V, (Vocabulary.canonical v).toList.all isPlain = true) :
    LocalAt (Parser.named V) text := by
  intro stop tail hpath hstop htail
  refine ⟨stopsAtLayout_named hplain htail (by decide), fun {value left} hdone => ?_⟩
  rcases relates_named.sound hdone with ⟨last, hlast, htext⟩
  rw [htext] at hpath
  exact Rest.ofList_inj hlast ▸ hpath.behind_isPlain (hplain value) hstop

theorem localAt_word (label : String) {first : Char → Bool}
    (hfirst : ∀ c, first c = true → Text.isWordChar c = true) :
    LocalAt (Parser.word label first) text := by
  intro stop tail hpath hstop htail
  refine ⟨stopsAtLayout_word label hfirst htail (by decide), fun {value left} hdone => ?_⟩
  rcases (relates_word label first).sound hdone with
    ⟨last, hlast, c, chars, htext, -, hc, hchars, -⟩
  have hword : (c :: chars).all Text.isWordChar = true := by
    rw [List.all_cons, hfirst c hc, hchars, Bool.and_self]
  rw [htext, ← List.cons_append] at hpath
  exact Rest.ofList_inj hlast ▸ hpath.behind_isPlain (isPlain_of_all_isWordChar hword) hstop

/-- A quotation is taken up to its end. -/
theorem quoted_of_decode {quote : Char} {rest value : List Char} {extent : Nat}
    (h : Text.Quoted.decode quote rest = some (value, extent)) :
    Parser.quoted quote (.ofList (quote :: rest)) =
      ⟨.done (String.ofList value) ((Rest.ofList (quote :: rest)).drop (extent + 1)), none⟩ := by
  rw [Parser.quoted, if_pos (opensWith_ofList_iff.mpr rfl), Rest.chars_ofList, List.tail_cons, h]

/-- A quotation in front of a full stop has an end. -/
theorem localAt_quoted {quote : Char} (hquote : quote = '\x27' ∨ quote = '"') :
    LocalAt (Parser.quoted quote) text := by
  have hback : quote ≠ '\\' := by
    rcases hquote with rfl | rfl <;> decide
  have hpoint : quote ≠ '.' := by
    rcases hquote with rfl | rfl <;> decide
  by_cases hhead : text.head? = some quote
  · rcases List.head?_eq_some_iff.mp hhead with ⟨rest, rfl⟩
    -- A quote is passed together with its quotation only, so the quotation has an end.
    intro stop tail hpath hstop htail
    rcases hpath.exists_quotation hquote (hstop.ne_cons hpoint rest) with
      ⟨chars, value, left, rfl, hspells, hothers⟩
    have hdecode := Text.Quoted.decode_of_spells hback hspells left
    constructor
    · have hmore := Text.Quoted.decode_of_spells hback hspells (left ++ tail)
      rw [← List.append_assoc] at hmore
      rw [List.cons_append, quoted_of_decode hmore, quoted_of_decode hdecode]
      refine done_extend _ (quote :: (chars ++ left)) tail ?_
      rw [List.length_cons, List.length_append]
      omega
    · intro value' left' hdone
      rw [quoted_of_decode hdecode, Outcome.done.injEq, Rest.drop_ofList, List.drop_succ_cons,
        List.drop_left] at hdone
      exact Rest.ofList_inj hdone.2 ▸ hothers
  · have hfail : ∀ {text : List Char}, text.head? ≠ some quote →
        Parser.quoted quote (.ofList text) =
          Parser.fail ("character " ++ String.singleton quote) (Rest.ofList text) := by
      intro text hne
      rw [Parser.quoted, if_neg (mt opensWith_ofList_iff.mp hne)]
    intro stop tail hpath hstop htail
    constructor
    · rw [hfail hhead, hfail (hpath.head?_append hstop tail ▸ hhead)]
      exact Agrees.fail_extend _ text tail
    · intro value left hdone
      rw [hfail hhead, Parser.outcome_fail] at hdone
      exact absurd hdone (by simp only [reduceCtorEq, not_false_eq_true])

/-- A numeral is a run of digits, unless it is too long. -/
theorem numeral_apply (text : List Char) :
    Parser.numeral (.ofList text) =
      (if (text.takeWhile Char.isDigit).isEmpty then Parser.fail "decimal" (Rest.ofList text)
      else if Numeral.digitLimit < (text.takeWhile Char.isDigit).length then
        ⟨.aborted (.numeralTooLong (text.takeWhile Char.isDigit).length), none⟩
      else ⟨.done (Numeral.value (text.takeWhile Char.isDigit))
        ((Rest.ofList text).drop (text.takeWhile Char.isDigit).length), none⟩ : Result Nat) := rfl

theorem stopsAtLayout_numeral : StopsAtLayout Parser.numeral := by
  intro text tail c htail hc
  have hdigit : c.isDigit = false := by
    rw [← Bool.not_eq_true]
    intro hd
    exact absurd (Text.isWordChar_of_isDigit hd)
      (by rw [Text.not_isWordChar_of_opensLayout hc]; exact Bool.false_ne_true)
  have hrun := takeWhile_append hdigit htail text
  rw [numeral_apply, hrun, numeral_apply]
  split
  · exact Agrees.fail_extend _ text tail
  · split
    · rfl
    · exact done_extend _ text tail (List.takeWhile_prefix _).length_le

theorem localAt_numeral : LocalAt Parser.numeral text := by
  intro stop tail hpath hstop htail
  refine ⟨stopsAtLayout_numeral htail (by decide), fun {value left} hdone => ?_⟩
  rcases relates_numeral.sound hdone with ⟨last, hlast, digits, htext, hdigits, -⟩
  have hplain : digits.all isPlain = true := List.all_eq_true.mpr fun c hc =>
    isPlain_of_isWordChar (Text.isWordChar_of_isDigit (hdigits.2 c hc))
  rw [htext] at hpath
  exact Rest.ofList_inj hlast ▸ hpath.behind_isPlain hplain hstop

end

end Reading

namespace DecimalLiteral

variable {tail : List Char} {c : Char}

/-- Layout is not a digit, and starts with no other character of a number. -/
theorem numberEnds_of_opensLayout (htail : tail.head? = some c)
    (hc : Text.opensLayout c = true) : NumberEnds tail := by
  intro d hd
  rw [Option.mem_def, htail, Option.some.injEq] at hd
  subst hd
  refine ⟨Text.not_isWordChar_of_opensLayout hc, ?_⟩
  rintro rfl
  exact absurd hc (by decide)

/-- The sign of a text is one whatever layout follows. -/
theorem signOf_append_layout (htail : tail.head? = some c) (hc : Text.opensLayout c = true)
    (text : List Char) : signOf (text ++ tail) = signOf text := by
  rcases text with _ | ⟨d, text⟩
  · have hne : ∀ d, Text.opensLayout d = false → c ≠ d := by
      rintro d hd rfl
      exact Bool.false_ne_true (hd.symm.trans hc)
    rw [List.nil_append, signOf, htail, Option.filter_some, if_neg]
    · rfl
    · simp only [hne '+' (by decide), hne '-' (by decide), decide_false, Bool.or_self,
        Bool.false_eq_true, not_false_eq_true]
  · rfl

theorem fractionOf_append_layout (htail : tail.head? = some c) (hc : Text.opensLayout c = true)
    (text : List Char) : fractionOf (text ++ tail) = fractionOf text := by
  have hends := numberEnds_of_opensLayout htail hc
  rcases text with _ | ⟨d, text⟩
  · rcases List.head?_eq_some_iff.mp htail with ⟨rest, rfl⟩
    rw [List.nil_append, fractionOf, fractionOf]
    · exact fun rest h => List.cons_ne_nil _ _ h.symm
    · exact fun rest h => (hends c rfl).2 (List.cons.inj h).1
  · by_cases hd : d = '.'
    · rw [hd, List.cons_append, fractionOf, fractionOf]
      simp only [Reading.takeWhile_append (hends.digitsEnd c htail) htail]
    · rw [List.cons_append, fractionOf, fractionOf]
      · exact fun rest h => hd (List.cons.inj h).1
      · exact fun rest h => hd (List.cons.inj h).1

theorem exponentOf_append_layout (htail : tail.head? = some c) (hc : Text.opensLayout c = true)
    (text : List Char) : exponentOf (text ++ tail) = exponentOf text := by
  have hends := numberEnds_of_opensLayout htail hc
  rcases text with _ | ⟨d, text⟩
  · exact @exponentOf_append none nofun _ hends
  · have hle := (isPrefix_signOf text).length_le
    have hrun := Reading.takeWhile_append (hends.digitsEnd c htail) htail
    simp only [List.cons_append, exponentOf, signOf_append_layout htail hc,
      List.drop_append_of_le_length hle, hrun]

/-- The literal at the start of a text is one whatever layout follows. -/
theorem scan?_append_layout (htail : tail.head? = some c) (hc : Text.opensLayout c = true)
    (text : List Char) : scan? (text ++ tail) = scan? text := by
  have hsign := (isPrefix_signOf text).length_le
  have hwhole := (List.takeWhile_prefix (p := Char.isDigit)
    (l := text.drop (signOf text).toList.length)).length_le
  have hfraction := (isPrefix_fractionChars ((text.drop (signOf text).toList.length).drop
    ((text.drop (signOf text).toList.length).takeWhile Char.isDigit).length)).length_le
  have hrun := Reading.takeWhile_append
    ((numberEnds_of_opensLayout htail hc).digitsEnd c htail) htail
  simp only [scan?, signOf_append_layout htail hc, List.drop_append_of_le_length hsign, hrun,
    List.drop_append_of_le_length hwhole, fractionOf_append_layout htail hc,
    List.drop_append_of_le_length hfraction, exponentOf_append_layout htail hc]

/-- A literal in front of a full stop ends in front of it: a point inside of a literal
    has a digit behind it. -/
theorem path_behind_chars {literal : DecimalLiteral} (h : literal.Valid) {left stop : List Char}
    (hpath : Reading.Path (literal.chars ++ left) stop) (hstop : Reading.FullStop stop) :
    Reading.Path left stop := by
  have hsign : ∀ {sign}, IsSign sign → sign.toList.all Reading.isPlain = true := by
    intro sign hsign
    refine List.all_eq_true.mpr fun c hc => ?_
    rcases hsign c (Option.mem_toList.mp hc) with rfl | rfl <;> decide
  have hdigits : ∀ {digits}, Digits digits → digits.all Reading.isPlain = true := fun hd =>
    List.all_eq_true.mpr fun c hc =>
      Reading.isPlain_of_isWordChar (Text.isWordChar_of_isDigit (hd.2 c hc))
  have hexponent : ((literal.exponent.map ExponentLiteral.chars).getD []).all Reading.isPlain =
      true := by
    rcases hexponent : literal.exponent with _ | e
    · rfl
    · rcases h.exponent e hexponent with ⟨hmark, hesign, hedigits⟩
      rw [Option.map_some, Option.getD_some, ExponentLiteral.chars, List.all_cons,
        List.all_append, hsign hesign, hdigits hedigits, Bool.and_self, Bool.and_true]
      rcases hmark with hmark | hmark <;> rw [hmark] <;> decide
  rw [chars, List.append_assoc, List.append_assoc, List.append_assoc] at hpath
  have hfraction := (hpath.behind_isPlain (hsign h.sign) hstop).behind_isPlain
    (hdigits h.whole) hstop
  refine Reading.Path.behind_isPlain hexponent ?_ hstop
  rcases hdot : literal.fraction with _ | digits
  · rw [hdot] at hfraction
    exact hfraction
  · have hd := h.fraction digits hdot
    rw [hdot, fractionChars, List.cons_append] at hfraction
    refine Reading.Path.behind_isPlain (hdigits hd) (hfraction.behind_step
      (Reading.advance_of_walks (by decide) _) ?_) hstop
    rintro rfl
    -- The point would be the full stop, but a digit follows it.
    rcases hstop with ⟨rest, heq, hrest⟩
    rcases hd.exists_cons with ⟨c, others, rfl, hc⟩
    rw [← (List.cons.inj heq).2] at hrest
    rw [hrest c rfl] at hc
    exact Bool.false_ne_true hc

end DecimalLiteral

namespace Reading

variable {α : Type}

theorem stopsAtLayout_decimalLiteral : StopsAtLayout Parser.decimalLiteral := by
  intro text tail c htail hc
  rw [Parser.decimalLiteral, Parser.decimalLiteral, Rest.chars_ofList, Rest.chars_ofList,
    DecimalLiteral.scan?_append_layout htail hc]
  rcases hscan : DecimalLiteral.scan? text with _ | literal
  · exact Agrees.fail_extend _ text tail
  · exact done_extend literal text tail (DecimalLiteral.isPrefix_chars hscan).length_le

theorem localAt_decimalLiteral {text : List Char} : LocalAt Parser.decimalLiteral text := by
  intro stop tail hpath hstop htail
  refine ⟨stopsAtLayout_decimalLiteral htail (by decide), fun {value left} hdone => ?_⟩
  rw [Parser.decimalLiteral, Rest.chars_ofList] at hdone
  rcases hscan : DecimalLiteral.scan? text with _ | literal
  · rw [hscan, Parser.outcome_fail] at hdone
    exact absurd hdone (by simp only [reduceCtorEq, not_false_eq_true])
  · rcases DecimalLiteral.isPrefix_chars hscan with ⟨last, rfl⟩
    rw [hscan, Outcome.done.injEq, Rest.drop_ofList, List.drop_left] at hdone
    exact Rest.ofList_inj hdone.2 ▸
      DecimalLiteral.path_behind_chars (DecimalLiteral.valid_of_scan? hscan) hpath hstop

/-- Layout in front of a full stop is skipped up to its end, whatever follows. -/
theorem localAt_skipLayout {text : List Char} : LocalAt Parser.skipLayout text := by
  have hskip : ∀ {gap left : List Char}, Gap gap → Significant left →
      Parser.skipLayout (.ofList (gap ++ left)) = ⟨.done () (.ofList left), none⟩ := by
    intro gap left hgap hleft
    rw [skipLayout_eq_of_skips (hgap.skips left), skipLayout_significant hleft]
  intro stop tail hpath hstop htail
  constructor
  · rcases hpath.exists_significant hstop with ⟨gap, left, rfl, hgap, hleft, hlater⟩
    have hahead := hleft.append (hlater.ne_nil hstop) htail (by decide)
    rw [hskip hgap hleft, List.append_assoc, hskip hgap hahead]
    rfl
  · intro value left hdone
    rcases hpath.exists_significant hstop with ⟨gap, last, rfl, hgap, hlast, hlater⟩
    rw [hskip hgap hlast, Outcome.done.injEq] at hdone
    exact Rest.ofList_inj hdone.2 ▸ hlater

theorem localAt_behind {p q : Parser α} {c : Char} {text : List Char} (hc : isPlain c = true)
    (hp : ∀ text, LocalAt p text) (hq : LocalAt q text) :
    LocalAt (Parser.ifOpens c (Parser.take 1 >>= fun _ => p) q) text := by
  have hpoint : c ≠ '.' := by
    rintro rfl
    exact absurd hc (by decide)
  by_cases hhead : text.head? = some c
  · rcases List.head?_eq_some_iff.mp hhead with ⟨rest, rfl⟩
    have hopens : ∀ rest, Parser.ifOpens c (Parser.take 1 >>= fun _ => p) q (.ofList (c :: rest)) =
        (p (.ofList rest)).after none := by
      intro rest
      change (if (Rest.ofList (c :: rest)).opensWith c then _ else _) = _
      rw [if_pos (opensWith_ofList_iff.mpr rfl)]
      rfl
    -- The character is a step, and it is not the full stop.
    have hnext : ∀ {stop}, Path (c :: rest) stop → FullStop stop → Path rest stop :=
      fun hpath hstop => hpath.behind_step (advance_of_walks (walks_of_isPlain hc) rest)
        (hstop.ne_cons hpoint rest)
    intro stop tail hpath hstop htail
    constructor
    · rw [List.cons_append, hopens, hopens, (hp rest (hnext hpath hstop) hstop htail).stable,
        Result.extend_after]
      rfl
    · intro value left hdone
      rw [hopens] at hdone
      exact (hp rest (hnext hpath hstop) hstop htail).behind hdone
  · have hopens : ∀ {text : List Char}, text.head? ≠ some c →
        Parser.ifOpens c (Parser.take 1 >>= fun _ => p) q (.ofList text) = q (.ofList text) :=
      fun hne => if_neg (mt opensWith_ofList_iff.mp hne)
    intro stop tail hpath hstop htail
    constructor
    · rw [hopens hhead, hopens (hpath.head?_append hstop tail ▸ hhead)]
      exact (hq hpath hstop htail).stable
    · intro value left hdone
      rw [hopens hhead] at hdone
      exact (hq hpath hstop htail).behind hdone

/-- A plain sign and the layout behind it. -/
theorem localAt_operator {sign : String} (hplain : sign.toList.all isPlain = true)
    (text : List Char) : LocalAt (Parser.operator sign) text := by
  have hwithin : Within text (Parser.expect "operator" sign Rest.startsWith (.ofList text)) := by
    refine within_expect (fun h => h) ?_
    rintro left rfl
    exact path_of_isPlain hplain left
  exact .bind hwithin (localAt_sign _ hplain) fun _ => .bind within_skipLayout localAt_skipLayout
    fun _ => .pure _ _

/-- Brackets are plain. -/
theorem isPlain_of_isBracketPair {opening closing : String} (h : IsBracketPair opening closing) :
    opening.toList.all isPlain = true ∧ closing.toList.all isPlain = true := by
  rcases h with ⟨rfl, rfl⟩ | ⟨rfl, rfl⟩ <;> decide

/-- What follows a full stop does not matter to a composed parser that takes none. -/
theorem Composed.localAt {commas : Bool} {p : Parser α} (h : Composed false commas p)
    (text : List Char) : LocalAt p text := by
  induction h generalizing text with
  | pure a => exact .pure a text
  | fail label => exact .fail label text
  | abort reason => exact .abort reason text
  | bind hp _ ihp ihnext =>
      exact .bind (hp.within text) (ihp text) fun _ => ihnext _ _
  | labeled label _ ih => exact .labeled label (ih text)
  | orElse _ _ ihp ihq => exact .orElse (ihp text) (ihq text)
  | look _ _ _ ih => exact .look fun c => ih c text
  | many _ hp ih => exact .many hp.within ih text
  | repeatWhile inSight _ _ _ hp ih =>
      exact .repeatWhile inSight hp.within ih text
  | layout => exact localAt_skipLayout
  | sign label hbland => exact localAt_sign label (all_isPlain_of_isBlandWord hbland)
  | comma => exact localAt_operator (by decide) text
  | enclosed hpair hp ih =>
      rcases isPlain_of_isBracketPair hpair with ⟨hopening, hclosing⟩
      rcases walks_of_isBracketPair hpair with ⟨hsteps, hlast⟩
      exact .bind (within_operator hsteps text) (localAt_operator hopening text) fun _ =>
        .bind (hp.within _) (ih _) fun _ => .bind (within_operator hlast _)
          (localAt_operator hclosing _) fun _ => .pure _ _
  | wholeWord label hbland => exact localAt_wholeWord label (all_isPlain_of_isBlandWord hbland)
  | named hbland => exact localAt_named fun v => all_isPlain_of_isBlandWord (hbland v)
  | word label hfirst => exact localAt_word label hfirst
  | quoted hquote => exact localAt_quoted hquote
  | numeral => exact localAt_numeral
  | decimalLiteral => exact localAt_decimalLiteral
  | behind hc _ _ ihp ihq =>
      exact localAt_behind (isPlain_of_isBland hc) ihp (ihq text)
  | slash hp hclear _ ihp ihnext =>
      refine .bind (hp.within text) (ihp text) fun hdone => ?_
      -- Layout has been skipped in front of the slash, so it does not open a comment.
      have hslash := hclear hdone
      exact .bind (within_slash hslash) (localAt_slash hslash) fun _ => ihnext _ _
  | stop hstops => exact absurd hstops Bool.false_ne_true

end Reading

end Tptp
