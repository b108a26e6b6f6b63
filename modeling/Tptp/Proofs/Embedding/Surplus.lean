import Tptp.Proofs.Locality.Within

/-!
# Brackets in Balance

Every parser takes brackets in pairs.

The surplus of a text is the number of brackets that are opened in it and not closed.
It is counted along the path of the text, so what stands in comments and in quotations
does not count. If one of these has no end, there is no such number.

A composed parser opens and closes the same number of brackets, so the text that it
leaves has the surplus of the text in front of it. In particular the whole of a text
that is read up to its end is in balance.

## Main definitions

* `bracketWeight`, `surplus`: How many more brackets are opened than closed.
* `Balanced`: A parser leaves a text with the surplus of the text in front of it.

## Theorems

* `surplus_append`, `Skips.surplus_eq`: What does not count.
* `balanced_between`: Brackets around a parser in balance.
* `Composed.balanced`: Parsers take brackets in pairs.
-/

namespace Tptp

namespace Reading

/-- What a character adds to the number of open brackets. -/
def bracketWeight (c : Char) : Int :=
  if c = '(' ∨ c = '[' then 1 else if c = ')' ∨ c = ']' then -1 else 0

/-- How many more brackets are opened than closed in a text, if all of its comments and
    quotations have an end. -/
def surplus (text : List Char) : Option Int :=
  match text with
  | [] => some 0
  | c :: rest =>
    match _step : advance (c :: rest) with
    | some left => (surplus left).map (bracketWeight c + ·)
    | none => none
termination_by text.length
decreasing_by exact length_lt_of_advance _step

theorem surplus_nil : surplus [] = some 0 := by
  rw [surplus]

/-- A step adds the weight of its first character. -/
theorem surplus_of_advance {c : Char} {rest left : List Char}
    (h : advance (c :: rest) = some left) :
    surplus (c :: rest) = (surplus left).map (bracketWeight c + ·) := by
  rw [surplus]
  split
  · next found hstep =>
      rw [h, Option.some.injEq] at hstep
      rw [hstep]
  · next hstep =>
      rw [h] at hstep
      exact absurd hstep (Option.some_ne_none _)

/-- A step over nothing that counts. -/
theorem surplus_of_weight {c : Char} {rest left : List Char}
    (h : advance (c :: rest) = some left) (hweight : bracketWeight c = 0) :
    surplus (c :: rest) = surplus left := by
  rw [surplus_of_advance h, hweight]
  simp only [Int.zero_add, Option.map_id']

/-- A comment without an end leaves the number open. -/
theorem surplus_of_unclosed {text : List Char} (h : Unclosed text) : surplus text = none := by
  rcases text with _ | ⟨c, text⟩
  · rcases h with ⟨body, hbody, -⟩
    exact absurd hbody.symm (List.cons_ne_nil _ _)
  · rw [surplus]
    split
    · next hstep =>
        rw [advance_unclosed h] at hstep
        exact absurd hstep.symm (Option.some_ne_none _)
    · rfl

/-- A step of one character that is no bracket. -/
def isLevel (c : Char) : Bool :=
  walks c && decide (bracketWeight c = 0)

/-- Characters that are no brackets do not count. -/
theorem surplus_append {word : List Char} (h : word.all isLevel = true) (left : List Char) :
    surplus (word ++ left) = surplus left := by
  induction word with
  | nil => rfl
  | cons c word ih =>
      rw [List.all_cons, Bool.and_eq_true, isLevel, Bool.and_eq_true, decide_eq_true_eq] at h
      rw [List.cons_append, surplus_of_weight (advance_of_walks h.1.1 _) h.1.2, ih h.2]

/-- A character that differs from the brackets does not count. -/
theorem bracketWeight_eq_zero {c : Char} (h : ∀ d ∈ ['(', ')', '[', ']'], c ≠ d) :
    bracketWeight c = 0 := by
  rw [bracketWeight, if_neg (not_or.mpr ⟨h '(' (by decide), h '[' (by decide)⟩),
    if_neg (not_or.mpr ⟨h ')' (by decide), h ']' (by decide)⟩)]

theorem bracketWeight_of_isBland {c : Char} (h : isBland c = true) : bracketWeight c = 0 := by
  rw [isBland, Bool.and_eq_true, decide_eq_true_eq] at h
  refine bracketWeight_eq_zero ?_
  rintro d hd rfl
  have hall : ∀ d ∈ ['(', ')', '[', ']'], d ∈ ['(', ')', '[', ']', ','] :=
    List.all_iff_forall_prop.mp (by decide)
  exact h.2 (hall c hd)

theorem isLevel_of_isBland {c : Char} (h : isBland c = true) : isLevel c = true := by
  rw [isLevel, walks_of_isPlain (isPlain_of_isBland h), bracketWeight_of_isBland h]
  decide

theorem all_isLevel_of_isBlandWord {word : List Char} (h : isBlandWord word = true) :
    word.all isLevel = true :=
  List.all_eq_true.mpr fun c hc =>
    isLevel_of_isBland (List.all_eq_true.mp (all_isBland_of_isBlandWord h) c hc)

/-- Word characters are bland. -/
theorem isBland_of_isWordChar {c : Char} (h : Text.isWordChar c = true) : isBland c = true := by
  rw [isBland, isPlain_of_isWordChar h, Bool.true_and, decide_eq_true_eq]
  intro hmem
  have hall : ∀ d ∈ ['(', ')', '[', ']', ','], Text.isWordChar d = false :=
    List.all_iff_forall_prop.mp (by decide)
  rw [hall c hmem] at h
  exact Bool.false_ne_true h

theorem all_isLevel_of_isWordChar {word : List Char} (h : word.all Text.isWordChar = true) :
    word.all isLevel = true :=
  List.all_eq_true.mpr fun c hc =>
    isLevel_of_isBland (isBland_of_isWordChar (List.all_eq_true.mp h c hc))

/-- Layout does not count. -/
theorem Skips.surplus_eq {text left : List Char} (h : Skips text left) :
    surplus text = surplus left := by
  induction h with
  | nil => rfl
  | @blank c _ _ hc _ ih =>
      refine (surplus_of_weight (advance_blank hc _) ?_).trans ih
      have hall : ∀ d ∈ ['(', ')', '[', ']'], Text.isBlank d = false :=
        List.all_iff_forall_prop.mp (by decide)
      refine bracketWeight_eq_zero ?_
      rintro d hd rfl
      rw [hall c hd] at hc
      exact Bool.false_ne_true hc
  | line hline _ ih => exact (surplus_of_weight (advance_line hline _) (by decide)).trans ih
  | lastLine hline => exact surplus_of_weight (advance_lastLine hline) (by decide)
  | block hbody _ ih => exact (surplus_of_weight (advance_block hbody _) (by decide)).trans ih

/-- A quotation does not count. -/
theorem surplus_quotation {quote : Char} (hquote : quote = '\x27' ∨ quote = '"')
    {chars value : List Char} (h : Text.Quoted.Spells quote chars value) (left : List Char) :
    surplus (quote :: (chars ++ left)) = surplus left := by
  have hback : quote ≠ '\\' := by
    rcases hquote with rfl | rfl <;> decide
  refine surplus_of_weight ?_ (by rcases hquote with rfl | rfl <;> decide)
  rw [advance_quote hquote, Text.Quoted.decode_of_spells hback h left, Option.map_some,
    List.drop_left]

/-- The characters of a literal do not count. -/
theorem all_isLevel_chars {literal : DecimalLiteral} (h : literal.Valid) :
    literal.chars.all isLevel = true := by
  have hdigits : ∀ {digits}, Digits digits → digits.all isLevel = true := fun hd =>
    all_isLevel_of_isWordChar (List.all_eq_true.mpr fun c hc =>
      Text.isWordChar_of_isDigit (hd.2 c hc))
  have hsign : ∀ {sign}, IsSign sign → sign.toList.all isLevel = true := by
    intro sign hsign
    refine List.all_eq_true.mpr fun c hc => ?_
    rcases hsign c (Option.mem_toList.mp hc) with rfl | rfl <;> decide
  have hfraction : (DecimalLiteral.fractionChars literal.fraction).all isLevel = true := by
    rcases hfraction : literal.fraction with _ | digits
    · rfl
    · rw [DecimalLiteral.fractionChars, List.all_cons, hdigits (h.fraction digits hfraction)]
      decide
  have hexponent :
      ((literal.exponent.map ExponentLiteral.chars).getD []).all isLevel = true := by
    rcases hexponent : literal.exponent with _ | e
    · rfl
    · rcases h.exponent e hexponent with ⟨hmark, hesign, hedigits⟩
      rw [Option.map_some, Option.getD_some, ExponentLiteral.chars, List.all_cons,
        List.all_append, hsign hesign, hdigits hedigits]
      rcases hmark with hmark | hmark <;> rw [hmark] <;> decide
  rw [DecimalLiteral.chars, List.all_append, List.all_append, List.all_append, hsign h.sign,
    hdigits h.whole, hfraction, hexponent]
  decide

variable {α : Type}

/-- The parser leaves a text with the surplus of the text in front of it. -/
def Balanced (p : Parser α) : Prop :=
  Relates p fun text _ left => surplus text = surplus left

namespace Balanced

variable {p : Parser α}

/-- A parser that matches some characters, none of which counts. -/
theorem of_relates {R : List Char → α → List Char → Prop} (h : Relates p R)
    (hR : ∀ {text value left}, R text value left → surplus text = surplus left) : Balanced p :=
  h.mono fun _ _ _ => hR

/-- A series of matches is in balance if each of them is. -/
theorem steps {text left : List Char} {values : List α}
    (h : Steps (fun text (_ : α) left => surplus text = surplus left) text values left) :
    surplus text = surplus left := by
  induction h with
  | nil => rfl
  | cons item _ ih => exact item.trans ih

end Balanced

/-- A sign and the layout behind it change the surplus by what the sign weighs. -/
theorem relates_operator_surplus {sign : String} {weight : Int}
    (h : ∀ left, surplus (sign.toList ++ left) = (surplus left).map (weight + ·)) :
    Relates (Parser.operator sign) fun text _ left =>
      surplus text = (surplus left).map (weight + ·) := by
  refine (relates_sign sign).mono ?_
  rintro text value left ⟨middle, rfl, hskips⟩
  rw [h, hskips.surplus_eq]

theorem balanced_operator {sign : String} (h : sign.toList.all isLevel = true) :
    Balanced (Parser.operator sign) := by
  refine .of_relates (relates_sign sign) ?_
  rintro text value left ⟨middle, rfl, hskips⟩
  rw [surplus_append h, hskips.surplus_eq]

/-- The brackets of a pair weigh the same. -/
theorem surplus_bracketPair {opening closing : String} (h : IsBracketPair opening closing)
    (left : List Char) :
    surplus (opening.toList ++ left) = (surplus left).map (1 + ·) ∧
      surplus (closing.toList ++ left) = (surplus left).map (-1 + ·) := by
  rcases h with ⟨rfl, rfl⟩ | ⟨rfl, rfl⟩
  · exact ⟨surplus_of_advance (advance_of_walks (by decide) left),
      surplus_of_advance (advance_of_walks (by decide) left)⟩
  · exact ⟨surplus_of_advance (advance_of_walks (by decide) left),
      surplus_of_advance (advance_of_walks (by decide) left)⟩

/-- What stands between brackets is in balance with them. -/
theorem balanced_between {opening closing : String} (hpair : IsBracketPair opening closing)
    {p : Parser α} (hp : Balanced p) : Balanced (Parser.between opening closing p) := by
  have hopening := relates_operator_surplus fun left => (surplus_bracketPair hpair left).1
  have hclosing := relates_operator_surplus fun left => (surplus_bracketPair hpair left).2
  refine .of_relates (hopening.bind fun _ => hp.bind fun value => hclosing.bind fun _ =>
    .pure value) ?_
  rintro text value left ⟨_, m1, h1, _, m2, h2, _, m3, h3, -, rfl⟩
  -- The opening bracket adds one, what is inside adds nothing, the closing one takes it away.
  rw [h1, h2, h3, Option.map_map]
  refine (congrFun (congrArg Option.map (funext fun k => ?_)) _).trans (Option.map_id' ..)
  change 1 + (-1 + k) = k
  omega

/-- A slash in front of no comment does not count. -/
theorem surplus_slash {left : List Char} (h : Significant ('/' :: left)) :
    surplus ('/' :: left) = surplus left := by
  refine surplus_of_weight (advance_slash fun hstar => h.2 ?_) (by decide)
  rcases List.head?_eq_some_iff.mp hstar with ⟨rest, rfl⟩
  exact List.cons_prefix_cons.mpr ⟨rfl, List.cons_prefix_cons.mpr ⟨rfl, List.nil_prefix⟩⟩

/-- Composed parsers take brackets in pairs. -/
theorem Composed.balanced {stops commas : Bool} {p : Parser α} (h : Composed stops commas p) :
    Balanced p := by
  induction h with
  | pure a => exact .of_relates (.pure a) fun h => congrArg surplus h.2.symm
  | fail label =>
      exact ⟨fun h => absurd h (by simp only [Parser.outcome_fail, reduceCtorEq,
        not_false_eq_true])⟩
  | abort reason => exact Relates.abort reason
  | bind _ _ ihp ihnext =>
      refine .of_relates (ihp.bind ihnext) ?_
      rintro text value left ⟨_, _, h1, h2⟩
      exact h1.trans h2
  | labeled label _ ih => exact Relates.labeled label ih
  | orElse _ _ ihp ihq => exact Relates.orElse ihp ihq
  -- Whatever the next character decides, each of the parsers to choose from is in balance.
  | look _ _ _ ih => exact ⟨fun h => (ih _).sound h⟩
  | many _ _ ih => exact .of_relates (Relates.many ih) Balanced.steps
  | repeatWhile inSight _ _ _ _ ih => exact .of_relates (Relates.repeatWhile _ ih) Balanced.steps
  | layout => exact .of_relates relates_skipLayout fun h => h.1.surplus_eq
  | sign label hbland =>
      refine .of_relates (relates_expect fun h => h) ?_
      rintro text value left ⟨-, rfl⟩
      exact surplus_append (all_isLevel_of_isBlandWord hbland) left
  | comma => exact balanced_operator (by decide)
  | enclosed hpair _ ih => exact balanced_between hpair ih
  | wholeWord label hbland =>
      refine .of_relates (relates_expect fun h => (Bool.and_eq_true _ _ ▸ h).1) ?_
      rintro text value left ⟨-, rfl⟩
      exact surplus_append (all_isLevel_of_isBlandWord hbland) left
  | named hbland =>
      refine .of_relates relates_named ?_
      rintro text v left rfl
      exact surplus_append (all_isLevel_of_isBlandWord (hbland v)) left
  | word label hfirst =>
      refine .of_relates (relates_word label _) ?_
      rintro text value left ⟨c, chars, rfl, -, hc, hchars, -⟩
      rw [← List.cons_append]
      refine surplus_append (all_isLevel_of_isWordChar ?_) left
      rw [List.all_cons, hfirst c hc, hchars, Bool.and_self]
  | quoted hquote =>
      refine .of_relates (relates_quoted _) ?_
      rintro text value left ⟨chars, rfl, hspells⟩
      exact surplus_quotation hquote hspells left
  | numeral =>
      refine .of_relates relates_numeral ?_
      rintro text value left ⟨digits, rfl, hdigits, -⟩
      exact surplus_append (all_isLevel_of_isWordChar (List.all_eq_true.mpr fun c hc =>
        Text.isWordChar_of_isDigit (hdigits.2 c hc))) left
  | decimalLiteral =>
      refine .of_relates relates_decimalLiteral ?_
      rintro text literal left ⟨rfl, hvalid⟩
      exact surplus_append (all_isLevel_chars hvalid) left
  | behind hc _ _ ihp ihq =>
      constructor
      intro text value after h
      rw [Parser.outcome_ifOpens] at h
      split at h
      · next hopens =>
          rcases List.head?_eq_some_iff.mp (opensWith_ofList_iff.mp hopens) with ⟨rest, rfl⟩
          rcases Parser.bind_done h with ⟨_, middle, htake, h⟩
          rw [Parser.take, Outcome.done.injEq, Rest.drop_ofList] at htake
          rw [← htake.2] at h
          rcases ihp.sound h with ⟨left, rfl, hleft⟩
          refine ⟨left, rfl, (surplus_of_weight ?_ ?_).trans hleft⟩
          · exact advance_of_walks (walks_of_isPlain (isPlain_of_isBland hc)) rest
          · exact bracketWeight_of_isBland hc
      · exact ihq.sound h
  | slash _ hclear _ ihp ihnext =>
      constructor
      intro text value after h
      rcases Parser.bind_done h with ⟨a, _, hfirst, h⟩
      rcases Parser.bind_done h with ⟨_, _, hslash, h⟩
      rcases ihp.sound hfirst with ⟨middle, rfl, hmiddle⟩
      rcases relates_slash.sound hslash with ⟨behind, rfl, -, rfl⟩
      rcases (ihnext a).sound h with ⟨left, rfl, hleft⟩
      exact ⟨left, rfl, hmiddle.trans ((surplus_slash (hclear hfirst)).trans hleft)⟩
  | stop => exact balanced_operator (by decide)

end Reading

end Tptp
