import Tptp.Proofs.Lexical.Layout
import Tptp.Reading.Bracket

/-!
# Words and Signs, Exactly

What single words, signs and members of a vocabulary are read from.

A word goes on as far as it can, so it is read back if what follows cannot go on
with it. Of the members of a vocabulary the longest that stands at a place is found:
the table of names is tried in the order of their lengths, and two names of one
length that stand at one place are the same.

## Main definitions

* `WordEnds`: No word goes on at the start of a text.
* `SignAt`: A sign with layout behind it.

## Theorems

* `relates_expect`, `reads_expect`, `misses_expect`: Fixed texts.
* `reads_wholeWord`, `misses_wholeWord`, `misses_otherWord`: Those that must not go on.
* `relates_word`, `reads_word`, `misses_word`: Words of a class.
* `relates_named`, `reads_named`, `misses_named`: Members of a vocabulary.
* `relates_lexeme`, `reads_lexeme`: Tokens with the layout behind them.
* `relates_sign`, `reads_operator`: Signs.
* `reads_parens`, `reads_optionalParens`: What stands in parentheses.
-/

namespace Tptp

namespace Vocabulary

/-- A list in the order of lengths keeps it when one more name is put in. -/
theorem pairwise_insertName {V : Type} (entry : String × V) {names : List (String × V)}
    (h : names.Pairwise fun a b => b.1.length ≤ a.1.length) :
    (insertName entry names).Pairwise fun a b => b.1.length ≤ a.1.length := by
  induction names with
  | nil => exact List.pairwise_singleton _ _
  | cons next others ih =>
      rw [List.pairwise_cons] at h
      rw [insertName]
      split
      · next hle =>
          refine List.pairwise_cons.mpr ⟨fun other hother => ?_, List.pairwise_cons.mpr h⟩
          rcases List.mem_cons.mp hother with rfl | hother
          · exact hle
          · exact Nat.le_trans (h.1 other hother) hle
      · next hlt =>
          refine List.pairwise_cons.mpr ⟨fun other hother => ?_, ih h.2⟩
          rcases mem_insertName.mp hother with rfl | hother
          · omega
          · exact h.1 other hother

/-- Sorted names never get longer. -/
theorem pairwise_longestFirst {V : Type} (names : List (String × V)) :
    (longestFirst names).Pairwise fun a b => b.1.length ≤ a.1.length := by
  induction names with
  | nil => exact .nil
  | cons first others ih => exact pairwise_insertName first ih

end Vocabulary

namespace Reading

variable {α : Type} {E : Abort → Prop} {text left : List Char}

/-- No word goes on at the start of a text. -/
def WordEnds (text : List Char) : Prop :=
  ∀ c ∈ text.head?, Text.isWordChar c = false

/-- Where layout leads to the end of a word, the word has ended before. -/
theorem wordEnds_of_skips {middle : List Char} (h : Skips middle left) (hleft : WordEnds left) :
    WordEnds middle := by
  rcases h.eq_or_head with rfl | ⟨c, hhead, hc⟩
  · exact hleft
  · intro d hd
    rw [hhead, Option.mem_some_iff] at hd
    subst hd
    rcases hc with hc | rfl | rfl
    · rcases hw : Text.isWordChar c with _ | _
      · rfl
      · exact absurd hc (by rw [Text.not_isBlank_of_isWordChar _ hw]; exact Bool.false_ne_true)
    · decide
    · decide

theorem relates_expect {label : String} {sign : String} {test : Rest → List Char → Bool}
    (h : ∀ {rest chars}, test rest chars = true → rest.startsWith chars = true) :
    Relates (Parser.expect label sign test) fun text value left =>
      value = sign ∧ text = sign.toList ++ left := by
  constructor
  intro text value after hp
  rw [Parser.expect] at hp
  split at hp
  · next htest =>
      have hstarts := h htest
      rw [Rest.startsWith_ofList_iff] at hstarts
      rcases hstarts with ⟨left, rfl⟩
      rw [Outcome.done.injEq, Rest.drop_ofList, List.drop_left] at hp
      exact ⟨left, hp.2.symm, hp.1.symm, rfl⟩
  · exact absurd hp (by simp only [Parser.outcome_fail, reduceCtorEq, not_false_eq_true])

theorem reads_expect (label sign : String) (left : List Char) :
    ReadsUnless E (Parser.expect label sign Rest.startsWith) (sign.toList ++ left) sign left := by
  refine .inl ?_
  rw [Parser.expect, if_pos, Rest.drop_ofList, List.drop_left]
  rw [Rest.startsWith_ofList_iff]
  exact ⟨left, rfl⟩

theorem misses_expect {label sign : String} (h : ¬ sign.toList <+: text) :
    MissesUnless E (Parser.expect label sign Rest.startsWith) text := by
  rw [MissesUnless, Parser.expect, if_neg]
  · exact .inl ⟨_, rfl⟩
  · rw [Rest.startsWith_ofList_iff]
    exact h

/-- A word stands in front of a text that does not go on with it; one that ends in a
    sign stands in front of any text. -/
theorem hasWord_of_wordEnds {word : List Char}
    (hleft : word.getLast?.any Text.isWordChar = true → WordEnds left) :
    (Rest.ofList (word ++ left)).hasWord word = true := by
  rw [Rest.hasWord, Bool.and_eq_true, Rest.startsWith_ofList_iff]
  refine ⟨⟨left, rfl⟩, ?_⟩
  rw [Rest.chars_ofList, List.drop_left]
  rcases hlast : word.getLast?.any Text.isWordChar with _ | _
  · rw [Bool.false_and, Bool.not_false]
  · rcases left with _ | ⟨c, left⟩
    · rw [List.head?_nil, Option.any_none, Bool.and_false, Bool.not_false]
    · rw [List.head?_cons, Option.any_some, hleft hlast c rfl, Bool.and_false, Bool.not_false]

/-- A word that stands at a text, and can go on, does not. -/
theorem wordEnds_of_hasWord {word : List Char} (h : (Rest.ofList (word ++ left)).hasWord word = true)
    (hlast : word.getLast?.any Text.isWordChar = true) : WordEnds left := by
  rw [Rest.hasWord, Bool.and_eq_true, hlast, Bool.true_and, Rest.chars_ofList, List.drop_left,
    Bool.not_eq_true'] at h
  intro c hc
  rw [← h.2, Option.mem_def.mp hc, Option.any_some]

theorem reads_wholeWord (label word : String) (hleft : WordEnds left) :
    ReadsUnless E (Parser.expect label word Rest.hasWord) (word.toList ++ left) word left := by
  refine .inl ?_
  rw [Parser.expect, if_pos (hasWord_of_wordEnds fun _ => hleft), Rest.drop_ofList,
    List.drop_left]

theorem misses_wholeWord {label word : String} (h : ¬ word.toList <+: text) :
    MissesUnless E (Parser.expect label word Rest.hasWord) text := by
  rw [MissesUnless, Parser.expect, if_neg]
  · exact .inl ⟨_, rfl⟩
  · rw [Rest.hasWord, Bool.and_eq_true, Rest.startsWith_ofList_iff]
    exact fun hword => h hword.1

/-- One word does not stand where another one does, if they differ before one of them
    ends. -/
theorem not_prefix_append {front back : List Char}
    (h : front.take back.length ≠ back.take front.length) (more : List Char) :
    ¬ front <+: back ++ more := by
  intro hprefix
  refine h ?_
  rcases List.prefix_or_prefix_of_prefix hprefix (List.prefix_append back more) with hle | hle
  · rw [List.take_of_length_le hle.length_le]
    exact List.prefix_iff_eq_take.mp hle
  · rw [List.take_of_length_le hle.length_le]
    exact (List.prefix_iff_eq_take.mp hle).symm

/-- A word is as long as it can be. -/
theorem relates_word (label : String) (first : Char → Bool) :
    Relates (Parser.word label first) fun text value left =>
      ∃ c chars, text = c :: (chars ++ left) ∧ value.toList = c :: chars ∧ first c = true ∧
        chars.all Text.isWordChar = true ∧ WordEnds left := by
  constructor
  intro text value after h
  rw [Parser.word] at h
  rcases text with _ | ⟨c, rest⟩
  · exact absurd h (by simp only [Rest.chars_ofList, Parser.outcome_fail, reduceCtorEq,
      not_false_eq_true])
  · simp only [Rest.chars_ofList] at h
    split at h
    · next hfirst =>
        simp only [Outcome.done.injEq] at h
        refine ⟨rest.dropWhile Text.isWordChar, ?_, c, rest.takeWhile Text.isWordChar, ?_, ?_,
          hfirst, List.all_takeWhile, ?_⟩
        · rw [← h.2, Rest.drop_ofList, List.length_cons, List.drop_succ_cons]
          exact congrArg Rest.ofList ((Rest.ofList rest).chars_skipWhile Text.isWordChar)
        · rw [List.takeWhile_append_dropWhile]
        · rw [← h.1, String.toList_ofList]
        · intro d hd
          have hnot := List.head?_dropWhile_not Text.isWordChar rest
          rw [Option.mem_def.mp hd] at hnot
          exact Bool.not_eq_true _ ▸ by simpa using hnot
    · exact absurd h (by simp only [Parser.outcome_fail, reduceCtorEq, not_false_eq_true])

/-- A word that does not go on behind its end is the longest one at its start. -/
theorem takeWhile_append_of_wordEnds {chars : List Char}
    (hchars : chars.all Text.isWordChar = true) (hleft : WordEnds left) :
    (chars ++ left).takeWhile Text.isWordChar = chars := by
  rw [List.takeWhile_append_of_pos fun d hd => List.all_eq_true.mp hchars d hd]
  rcases left with _ | ⟨d, left⟩
  · rw [List.takeWhile_nil, List.append_nil]
  · rw [List.takeWhile_cons, hleft d rfl, if_neg Bool.false_ne_true, List.append_nil]

/-- A word is passed over where another one stands, also behind a sign that both have. -/
theorem misses_otherWord {label tag : String} (front tail : List Char) {word : List Char}
    (htag : tag.toList = front ++ tail) (htail : tail.all Text.isWordChar = true ∧ tail ≠ [])
    (hword : word.all Text.isWordChar = true) (hleft : WordEnds left) (hne : word ≠ tail) :
    MissesUnless E (Parser.expect label tag Rest.hasWord) (front ++ (word ++ left)) := by
  rw [MissesUnless, Parser.expect, if_neg]
  · exact .inl ⟨_, rfl⟩
  intro hhas
  have hstarts := hhas
  rw [Rest.hasWord, Bool.and_eq_true, Rest.startsWith_ofList_iff] at hstarts
  rcases hstarts.1 with ⟨last, hlast⟩
  rw [← hlast] at hhas
  have hlastEnds : WordEnds last := by
    refine wordEnds_of_hasWord hhas ?_
    rw [htag, List.getLast?_append, List.getLast?_eq_some_getLast htail.2, Option.some_or,
      Option.any_some, List.all_eq_true.mp htail.1 _ (List.getLast_mem htail.2)]
  -- Both are the longest word at the place.
  rw [htag, List.append_assoc, List.append_cancel_left_eq] at hlast
  have hlongest := takeWhile_append_of_wordEnds hword hleft
  rw [← hlast, takeWhile_append_of_wordEnds htail.1 hlastEnds] at hlongest
  exact hne hlongest.symm

/-- A word that does not go on behind its end matches at once. -/
theorem word_of_wordEnds (label : String) {first : Char → Bool} {c : Char} {chars : List Char}
    {value : String} (hvalue : value.toList = c :: chars) (hfirst : first c = true)
    (hchars : chars.all Text.isWordChar = true) (hleft : WordEnds left) :
    Parser.word label first (.ofList (value.toList ++ left)) =
      ⟨.done value (.ofList left), none⟩ := by
  have htake := takeWhile_append_of_wordEnds hchars hleft
  rw [Parser.word, hvalue]
  simp only [Rest.chars_ofList, List.cons_append, hfirst, if_true, htake, Rest.drop_ofList,
    List.length_cons, List.drop_succ_cons, List.drop_left]
  rw [← hvalue, String.ofList_toList]

/-- A word is read back if it does not go on behind its end. -/
theorem reads_word (label : String) {first : Char → Bool} {c : Char} {chars : List Char}
    {value : String} (hvalue : value.toList = c :: chars) (hfirst : first c = true)
    (hchars : chars.all Text.isWordChar = true) (hleft : WordEnds left) :
    ReadsUnless E (Parser.word label first) (value.toList ++ left) value left :=
  .inl (congrArg Result.outcome (word_of_wordEnds label hvalue hfirst hchars hleft))

/-- A word of a class opens with a character of the class. -/
theorem misses_word (label : String) {first : Char → Bool}
    (h : ∀ c ∈ text.head?, first c = false) : MissesUnless E (Parser.word label first) text := by
  rw [MissesUnless, Parser.word]
  rcases text with _ | ⟨c, rest⟩
  · exact .inl ⟨_, rfl⟩
  · simp only [Rest.chars_ofList, h c rfl, Bool.false_eq_true, if_false]
    exact .inl ⟨_, rfl⟩

section

variable {V : Type} [Vocabulary V]

/-- The name of a member stands at the start of the text as a whole word. -/
def Stands (v : V) (text : List Char) : Prop :=
  (Rest.ofList text).hasWord (Vocabulary.canonical v).toList = true

/-- A name that stands at a text is the start of it. -/
theorem Stands.starts {v : V} (h : Stands v text) :
    (Vocabulary.canonical v).toList <+: text := by
  rw [Stands, Rest.hasWord, Bool.and_eq_true, Rest.startsWith_ofList,
    List.isPrefixOf_iff_prefix] at h
  exact h.1

/-- What is found in the table of names stands at the text. -/
theorem stands_of_find? {name : String} {v : V}
    (h : (Vocabulary.nameTable V).find?
      (fun (name, _) => (Rest.ofList text).hasWord name.toList) = some (name, v)) :
    Vocabulary.canonical v = name ∧ Stands v text := by
  have hname := Vocabulary.mem_nameTable.mp (List.mem_of_find?_eq_some h)
  have hword := List.find?_some h
  refine ⟨hname, ?_⟩
  rw [Stands, hname]
  exact hword

/-- A member is found where its name stands. -/
theorem relates_named : Relates (Parser.named V) fun text v left =>
    text = (Vocabulary.canonical v).toList ++ left := by
  constructor
  intro text value after h
  rw [Parser.named] at h
  split at h
  · next name v hfind =>
      rw [Outcome.done.injEq] at h
      rcases stands_of_find? hfind with ⟨hname, hstands⟩
      rcases hstands.starts with ⟨left, rfl⟩
      refine ⟨left, ?_, by rw [← h.1]⟩
      rw [← h.2, ← hname, Rest.drop_ofList, List.drop_left]
  · exact absurd h (by simp only [Parser.outcome_fail, reduceCtorEq, not_false_eq_true])

/-- No name that stands at a text is longer than the one that is found there. -/
theorem length_le_of_find? {name : String} {v w : V}
    (h : (Vocabulary.nameTable V).find?
      (fun (name, _) => (Rest.ofList text).hasWord name.toList) = some (name, w))
    (hv : Stands v text) : (Vocabulary.canonical v).length ≤ (Vocabulary.canonical w).length := by
  rcases stands_of_find? h with ⟨rfl, -⟩
  have hmem : (Vocabulary.canonical v, v) ∈ Vocabulary.nameTable V :=
    Vocabulary.mem_nameTable.mpr rfl
  have hsorted : (Vocabulary.nameTable V).Pairwise fun a b => b.1.length ≤ a.1.length :=
    Vocabulary.pairwise_longestFirst _
  rcases List.find?_eq_some_iff_append.mp h with ⟨-, front, back, htable, hfront⟩
  rw [htable] at hmem hsorted
  rcases List.mem_append.mp hmem with hmem | hmem
  -- Members in front of the one that was found do not stand at the text.
  · have hnot : (!(Rest.ofList text).hasWord (Vocabulary.canonical v).toList) = true :=
      hfront _ hmem
    rw [show (Rest.ofList text).hasWord (Vocabulary.canonical v).toList = true from hv] at hnot
    exact absurd hnot (by decide)
  · rcases List.mem_cons.mp hmem with heq | hmem
    · exact Nat.le_of_eq (congrArg (fun entry => entry.1.length) heq)
    · exact (List.pairwise_cons.mp (List.pairwise_append.mp hsorted).2.1).1 _ hmem

/-- Two names of one length that stand at one text are one name. -/
theorem Stands.eq_of_length {v w : V} (hv : Stands v text) (hw : Stands w text)
    (h : (Vocabulary.canonical v).length = (Vocabulary.canonical w).length) : v = w := by
  have hlength : (Vocabulary.canonical v).toList.length =
      (Vocabulary.canonical w).toList.length := by
    rw [String.length_toList, String.length_toList, h]
  have hchars : (Vocabulary.canonical v).toList = (Vocabulary.canonical w).toList :=
    (List.prefix_of_prefix_length_le hv.starts hw.starts
      (Nat.le_of_eq hlength)).eq_of_length hlength
  exact Vocabulary.canonical_inj (String.toList_inj.mp hchars)

/-- The longest of the members that stand at a text is found. -/
theorem find?_nameTable {v : V} (hv : Stands v text)
    (hlongest : ∀ w : V, Stands w text →
      (Vocabulary.canonical w).length ≤ (Vocabulary.canonical v).length) :
    (Vocabulary.nameTable V).find? (fun (name, _) => (Rest.ofList text).hasWord name.toList) =
      some (Vocabulary.canonical v, v) := by
  rcases hfind : (Vocabulary.nameTable V).find?
    (fun (name, _) => (Rest.ofList text).hasWord name.toList) with _ | ⟨name, w⟩
  · exact absurd hv (List.find?_eq_none.mp hfind _ (Vocabulary.mem_nameTable.mpr rfl))
  · rcases stands_of_find? hfind with ⟨rfl, hw⟩
    rw [hv.eq_of_length hw (Nat.le_antisymm (length_le_of_find? hfind hv) (hlongest w hw))]
    exact hfind

/-- A member is read where its name stands and no longer name does. -/
theorem reads_named {v : V}
    (hleft : (Vocabulary.canonical v).toList.getLast?.any Text.isWordChar = true → WordEnds left)
    (hlongest : ∀ w : V, (Vocabulary.canonical w).toList <+: (Vocabulary.canonical v).toList ++ left →
      (Vocabulary.canonical w).length ≤ (Vocabulary.canonical v).length) :
    ReadsUnless E (Parser.named V) ((Vocabulary.canonical v).toList ++ left) v left := by
  refine .inl ?_
  rw [Parser.named, find?_nameTable (hasWord_of_wordEnds hleft) fun w hw => hlongest w hw.starts]
  simp only [Rest.drop_ofList, List.drop_left]

/-- No member is read where no name stands. -/
theorem misses_named (h : ∀ v : V, ¬ (Vocabulary.canonical v).toList <+: text) :
    MissesUnless E (Parser.named V) text := by
  rw [MissesUnless, Parser.named]
  split
  · next name v hfind =>
      exact absurd (stands_of_find? hfind).2.starts (h v)
  · exact .inl ⟨_, rfl⟩

end

/-- A token and the layout behind it. -/
theorem relates_lexeme {p : Parser α} {R : List Char → α → List Char → Prop} (h : Relates p R) :
    Relates (Parser.lexeme p) fun text value left =>
      ∃ middle, R text value middle ∧ Skips middle left ∧ Significant left := by
  refine (h.bind fun a => relates_skipLayout.bind fun _ => Relates.pure a).mono ?_
  rintro text value left ⟨a, middle, hr, _, last, hskips, rfl, rfl⟩
  exact ⟨middle, hr, hskips⟩

theorem reads_lexeme {p : Parser α} {value : α} {middle : List Char}
    (h : ReadsUnless E p text value middle) (hskips : Skips middle left)
    (hleft : Significant left) : ReadsUnless E (Parser.lexeme p) text value left :=
  h.bind ((reads_skipLayout hskips hleft).bind (.pure value left))

theorem misses_lexeme {p : Parser α} (h : MissesUnless E p text) :
    MissesUnless E (Parser.lexeme p) text :=
  h.bind

/-- A sign stands at the start of a text, with layout behind it. -/
def SignAt (sign : String) (text left : List Char) : Prop :=
  ∃ rest, text = sign.toList ++ rest ∧ Skips rest left

/-- A sign is read from where it stands. -/
theorem relates_sign (sign : String) :
    Relates (Parser.operator sign) fun text _ left => SignAt sign text left := by
  refine (relates_lexeme (relates_expect fun h => h)).mono ?_
  rintro text value left ⟨middle, ⟨-, rfl⟩, hskips, -⟩
  exact ⟨middle, rfl, hskips⟩

/-- A sign in front of no layout. -/
theorem reads_operator (sign : String) {middle : List Char} (hskips : Skips middle left)
    (hleft : Significant left) :
    ReadsUnless E (Parser.operator sign) (sign.toList ++ middle) sign left :=
  reads_lexeme (reads_expect _ _ _) hskips hleft

theorem SignAt.reads {sign : String} (h : SignAt sign text left) (hleft : Significant left) :
    ReadsUnless E (Parser.operator sign) text sign left := by
  rcases h with ⟨middle, rfl, hskips⟩
  exact reads_operator sign hskips hleft

theorem SignAt.head? {sign : String} {c : Char} (h : SignAt sign text left)
    (hsign : sign.toList = [c]) : text.head? = some c := by
  rcases h with ⟨rest, rfl, -⟩
  rw [hsign]
  rfl

theorem SignAt.length_le {sign : String} (h : SignAt sign text left) :
    left.length + sign.toList.length ≤ text.length := by
  rcases h with ⟨rest, rfl, hskips⟩
  have hle := hskips.length_le
  rw [List.length_append]
  omega

/-- What stands in parentheses is read if it is read behind the layout in them. -/
theorem reads_parens {p : Parser α} {inner middle : List Char} {value : α}
    (hopening : SignAt "(" text inner) (hinner : Significant inner)
    (hp : ReadsUnless E p inner value middle) (hclosing : SignAt ")" middle left)
    (hleft : Significant left) : ReadsUnless E (Parser.parens p) text value left :=
  .labeled _ ((hopening.reads hinner).bind (hp.bind ((hclosing.reads hleft).bind (.pure _ _))))

/-- What is read without parentheses is read where they are possible. -/
theorem reads_orParens {bare inner : Parser α} {value : α}
    (h : ReadsUnless E bare text value left) :
    ReadsUnless E (Parser.orParens bare inner) text value left := by
  by_cases hhead : text.head? = some '('
  · exact reads_ifOpens hhead h.orElse
  · exact reads_ifOpens_of_ne hhead h

/-- What is read without parentheses is read where there may be any number of them. -/
theorem reads_optionalParens {p : Nat → Parser α} {value : α} {depth n : Nat}
    (h : ∀ {n}, Allows E depth n → ReadsUnless E (p n) text value left)
    (hallows : Allows E (depth + 1) n) :
    ReadsUnless E (Parser.optionalParens p n) text value left := by
  cases n with
  | zero => exact .abort hallows.tooDeep
  | succ n => exact reads_orParens (h hallows.of_succ)

end Reading

end Tptp
