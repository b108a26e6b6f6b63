import Tptp.Proofs.Yields.Basic
import Tptp.Name
import Tptp.Reading.Token

/-!
# What Tokens and Brackets Yield

The rules of `Yields` for the parsers of single tokens, and for the combinators that
put brackets, commas and keywords around other parsers.

A word is what its class of first letters says, a quoted text is printable, and of
a sign nothing is to be said. Only numerals give up, and then the digits that are too
many stand at the place where the numeral was tried.

## Theorems

* `yields_word`, `yields_quoted`: The texts of words and of quoted tokens.
* `yields_numeral`: A numeral gives up for its own length.
* `Yields.parens`, `Yields.optionalParens`, `Yields.arguments`: Parentheses add
  nothing to what is yielded.
* `Yields.bracketList`, `Yields.bracketList1`: Lists, the second kind never empty.
-/

namespace Tptp

namespace Reading

variable {α β : Type}

/-- A parser that only tests the place and moves on yields what it says. -/
theorem yields_of_step {p : Parser α} {W : α → Prop}
    (h : ∀ rest, (∃ value n, (p rest).outcome = .done value (rest.drop n) ∧ W value) ∨
      ∃ failure, (p rest).outcome = .failed failure) : Yields p W := by
  constructor
  · intro rest after value hp
    rcases h rest with ⟨value', n, hd, hw⟩ | ⟨failure, hf⟩
    · rw [hd, Outcome.done.injEq] at hp
      exact hp.1 ▸ hw
    · exact absurd (hf.symm.trans hp) (by simp only [reduceCtorEq, not_false_eq_true])
  · intro rest after value hp
    rcases h rest with ⟨value', n, hd, hw⟩ | ⟨failure, hf⟩
    · rw [hd, Outcome.done.injEq] at hp
      exact hp.2 ▸ List.drop_suffix _ _
    · exact absurd (hf.symm.trans hp) (by simp only [reduceCtorEq, not_false_eq_true])
  · intro rest reason hp
    rcases h rest with ⟨value', n, hd, hw⟩ | ⟨failure, hf⟩
    · exact absurd (hd.symm.trans hp) (by simp only [reduceCtorEq, not_false_eq_true])
    · exact absurd (hf.symm.trans hp) (by simp only [reduceCtorEq, not_false_eq_true])

theorem yields_take (n : Nat) : Yields (Parser.take n) fun _ => True :=
  yields_of_step fun _ => .inl ⟨(), n, rfl, trivial⟩

theorem yields_expect (label text : String) (test : Rest → List Char → Bool) :
    Yields (Parser.expect label text test) fun _ => True := by
  refine yields_of_step fun rest => ?_
  rw [Parser.expect]
  split
  · exact .inl ⟨text, _, rfl, trivial⟩
  · exact .inr ⟨_, rfl⟩

theorem yields_named (V : Type) [Vocabulary V] : Yields (Parser.named V) fun _ => True := by
  refine yields_of_step fun rest => ?_
  rw [Parser.named]
  split
  · exact .inl ⟨_, _, rfl, trivial⟩
  · exact .inr ⟨_, rfl⟩

/-- A word starts with a letter of its class and goes on with word characters. -/
theorem yields_word (label : String) (first : Char → Bool) :
    Yields (Parser.word label first) fun text =>
      ∃ c chars, text.toList = c :: chars ∧ first c = true ∧ chars.all Text.isWordChar = true := by
  refine yields_of_step fun rest => ?_
  rw [Parser.word]
  split
  · next c chars _ =>
      split
      · next hc =>
          refine .inl ⟨_, _, rfl, c, chars.takeWhile Text.isWordChar, String.toList_ofList, hc, ?_⟩
          exact List.all_takeWhile
      · exact .inr ⟨_, rfl⟩
  · exact .inr ⟨_, rfl⟩

/-- A lower word is a lower word. -/
theorem yields_lowerWord : Yields Parser.lowerWord fun text =>
    Text.isLowerWord text.toList = true := by
  refine (yields_word _ _).mono ?_
  rintro text ⟨c, chars, htext, hc, hchars⟩
  rw [htext, Text.isLowerWord, hc, hchars, Bool.and_self]

/-- An upper word can name a variable. -/
theorem yields_upperWord : Yields Parser.upperWord fun text => Var.isValid text = true := by
  refine (yields_word _ _).mono ?_
  rintro text ⟨c, chars, htext, hc, hchars⟩
  rw [Var.isValid, htext, Text.isUpperWord, hc, hchars, Bool.and_self]

/-- What stands between quotes is printable, also where it is escaped. -/
theorem isPrintable_of_decode {quote : Char} (hquote : Text.isPrintable quote = true)
    {input text : List Char} {extent : Nat}
    (h : Text.Quoted.decode quote input = some (text, extent)) :
    text.all Text.isPrintable = true := by
  fun_induction Text.Quoted.decode quote input generalizing text extent with
  | case1 => exact absurd h (by simp only [reduceCtorEq, not_false_eq_true])
  | case2 =>
      simp only [Option.some.injEq, Prod.mk.injEq] at h
      rw [← h.1, List.all_nil]
  | case3 => exact absurd h (by simp only [reduceCtorEq, not_false_eq_true])
  | case4 =>
      simp only [Option.some.injEq, Prod.mk.injEq] at h
      rw [← h.1, List.all_nil]
  | case5 c d rest _ hescape ih =>
      rcases Option.map_eq_some_iff.mp h with ⟨⟨inner, n⟩, hinner, hout⟩
      simp only [Prod.mk.injEq] at hout
      rw [← hout.1, List.all_cons, ih hinner, Bool.and_true]
      -- What is escaped is the quote itself or a backslash.
      simp only [Bool.and_eq_true, Bool.or_eq_true, decide_eq_true_eq] at hescape
      rcases hescape.2 with rfl | rfl
      · exact hquote
      · decide
  | case6 c d rest _ _ hc ih =>
      rcases Option.map_eq_some_iff.mp h with ⟨⟨inner, n⟩, hinner, hout⟩
      simp only [Prod.mk.injEq] at hout
      rw [← hout.1, List.all_cons, ih hinner, hc, Bool.and_self]
  | case7 => exact absurd h (by simp only [reduceCtorEq, not_false_eq_true])

theorem yields_quoted {quote : Char} (hquote : Text.isPrintable quote = true) :
    Yields (Parser.quoted quote) fun text => text.toList.all Text.isPrintable = true := by
  refine yields_of_step fun rest => ?_
  rw [Parser.quoted]
  split
  · split
    · next text extent hdecode =>
        refine .inl ⟨_, _, rfl, ?_⟩
        rw [String.toList_ofList]
        exact isPrintable_of_decode hquote hdecode
    · exact .inr ⟨_, rfl⟩
  · exact .inr ⟨_, rfl⟩

/-- A numeral gives up for the digits that stand where it was tried. -/
theorem yields_numeral : Yields Parser.numeral fun _ => True := by
  constructor
  · intro rest after value _
    trivial
  · intro rest after value h
    rw [Parser.numeral] at h
    split at h
    · exact absurd h (by simp only [Parser.outcome_fail, reduceCtorEq, not_false_eq_true])
    · split at h
      · exact absurd h (by simp only [Parser.outcome_abort, reduceCtorEq, not_false_eq_true])
      · rw [Outcome.done.injEq] at h
        exact h.2 ▸ List.drop_suffix _ _
  · intro rest reason h
    rw [Parser.numeral] at h
    split at h
    · exact absurd h (by simp only [Parser.outcome_fail, reduceCtorEq, not_false_eq_true])
    · split at h
      · next hlong =>
          rw [Parser.outcome_abort, Outcome.aborted.injEq] at h
          exact h ▸ .numeral (List.suffix_refl _) hlong
      · exact absurd h (by simp only [reduceCtorEq, not_false_eq_true])

theorem yields_decimalLiteral : Yields Parser.decimalLiteral fun _ => True := by
  refine yields_of_step fun rest => ?_
  rw [Parser.decimalLiteral]
  split
  · exact .inl ⟨_, _, rfl, trivial⟩
  · exact .inr ⟨_, rfl⟩

namespace Yields

variable {W : α → Prop} {U : β → Prop} {p q : Parser α}

theorem lexeme (hp : Yields p W) : Yields (Parser.lexeme p) W :=
  hp.bind fun _ ha => yields_skipLayout.bind fun _ _ => pure ha

end Yields

theorem yields_operator (text : String) : Yields (Parser.operator text) fun _ => True :=
  (yields_expect _ _ _).lexeme

theorem yields_character (text : String) : Yields (Parser.character text) fun _ => True :=
  yields_expect _ _ _

theorem yields_token (text : String) : Yields (Parser.token text) fun _ => True :=
  (yields_expect _ _ _).lexeme

theorem yields_member (V : Type) [Vocabulary V] : Yields (Parser.member V) fun _ => True :=
  (yields_named V).lexeme

theorem yields_integer : Yields Parser.integer fun _ => True :=
  yields_numeral.lexeme.labeled _

/-- An integer has a negative, so a minus sign is no reason to give up. -/
theorem yields_signedInteger : Yields Parser.signedInteger fun _ => True := by
  have h : Yields (Int.ofNat <$> Parser.integer) fun _ => True :=
    yields_integer.map fun _ _ => trivial
  refine Yields.ifOpens _ ?_ (Yields.ifOpens _ ?_ h)
  · refine (yields_take 1).bind fun _ _ => h.bind fun _ _ => ?_
    exact Yields.pure trivial
  · exact (yields_take 1).bind fun _ _ => h

namespace Yields

variable {W : α → Prop} {U : β → Prop} {p q : Parser α}

theorem comma (hp : Yields p W) : Yields (Parser.comma p) W :=
  (yields_operator _).bind fun _ _ => hp

theorem maybeComma (hp : Yields p W) : Yields (Parser.maybeComma p) (∀ a ∈ ·, W a) :=
  hp.comma.optional

theorem parens (hp : Yields p W) : Yields (Parser.parens p) W := by
  refine labeled _ ((yields_operator _).bind fun _ _ => hp.bind fun _ ha => ?_)
  exact (yields_operator _).bind fun _ _ => pure ha

theorem orParens (hp : Yields p W) (hq : Yields q W) : Yields (Parser.orParens p q) W :=
  ifOpens _ (hp.orElse hq.parens) hp

theorem optionalParens {p : Nat → Parser α} (hp : ∀ n, Yields (p n) W) (allowance : Nat) :
    Yields (Parser.optionalParens p allowance) W := by
  induction allowance with
  | zero => exact tooDeep
  | succ allowance ih => exact (hp allowance).orParens ih

theorem brackets (hp : Yields p W) : Yields (Parser.brackets p) W := by
  refine labeled _ ((yields_operator _).bind fun _ _ => hp.bind fun _ ha => ?_)
  exact (yields_operator _).bind fun _ _ => pure ha

theorem sepBy1 {separator : Parser β} (hp : Yields p W) (hs : Yields separator U) :
    Yields (Parser.sepBy1 p separator) (Many1 W) := by
  refine hp.bind fun a ha => ?_
  refine (many (p := separator *> p) (hs.bind fun _ _ => hp)).bind fun values hvalues => ?_
  exact pure (.cons ha hvalues)

theorem sepBy {separator : Parser β} (hp : Yields p W) (hs : Yields separator U) :
    Yields (Parser.sepBy p separator) (∀ a ∈ ·, W a) := by
  refine withDefault ?_ ((hp.sepBy1 hs).mono fun values h => h.2)
  intro a ha
  exact absurd ha List.not_mem_nil

theorem bracketList (hp : Yields p W) : Yields (Parser.bracketList p) (∀ a ∈ ·, W a) :=
  labeled _ (brackets (hp.sepBy (yields_operator _)))

theorem bracketList1 (hp : Yields p W) : Yields (Parser.bracketList1 p) (Many1 W) :=
  labeled _ (brackets (hp.sepBy1 (yields_operator _)))

theorem arguments (hp : Yields p W) : Yields (Parser.arguments p) (∀ a ∈ ·, W a) := by
  refine ifOpens _ ?_ (pure ?_)
  · refine (yields_operator _).bind fun _ _ => hp.bind fun a ha => ?_
    refine (repeatWhile _ hp.comma).bind fun values hvalues => ?_
    exact (yields_operator _).bind fun _ _ => pure (Many1.cons ha hvalues).2
  · intro a ha
    exact absurd ha List.not_mem_nil

theorem tagged (tag : String) (hp : Yields p W) : Yields (Parser.tagged tag p) W :=
  (yields_token _).bind fun _ _ => hp.parens

end Yields

end Reading

end Tptp
