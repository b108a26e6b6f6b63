import Tptp.Proofs.Reads
import Tptp.Reading.Token

/-!
# Quoted Texts, Exactly

What stands between quotes, item by item.

`Quoted.Spells` has one rule for each kind of item and one for the closing quote.
An item is an escape pair, or a printable character that starts no such pair; so
the items of a quoted text are determined by it, and reading takes exactly them,
whatever follows the closing quote.

## Main definitions

* `Quoted.Spells`: The items of a text between quotes, closing quote included.

## Theorems

* `Quoted.decode_of_spells`, `Quoted.spells_of_decode`: Decoding takes these items.
* `relates_quoted`, `quoted_of_spells`, `reads_quoted`: The same of the parser.
-/

namespace Tptp

namespace Text

namespace Quoted

/-- What follows an opening quote, up to the closing one, and the text that it
    denotes. -/
inductive Spells (quote : Char) : List Char → List Char → Prop where
  | close : Spells quote [quote] []
  | escaped {c : Char} {chars text : List Char} (h : c = quote ∨ c = '\\')
      (others : Spells quote chars text) : Spells quote ('\\' :: c :: chars) (c :: text)
  | plain {c : Char} {chars text : List Char} (hquote : c ≠ quote)
      (hprintable : isPrintable c = true)
      (hpair : c = '\\' → ∀ d ∈ chars.head?, d ≠ quote ∧ d ≠ '\\')
      (others : Spells quote chars text) : Spells quote (c :: chars) (c :: text)

/-- There is a closing quote at least. -/
theorem Spells.exists_cons {quote : Char} {chars text : List Char}
    (h : Spells quote chars text) : ∃ c rest, chars = c :: rest := by
  cases h with
  | close => exact ⟨quote, [], rfl⟩
  | escaped => exact ⟨'\\', _, rfl⟩
  | plain => exact ⟨_, _, rfl⟩

/-- Decoding takes the items and the closing quote, whatever follows. -/
theorem decode_of_spells {quote : Char} (hq : quote ≠ '\\') {chars text : List Char}
    (h : Spells quote chars text) (rest : List Char) :
    decode quote (chars ++ rest) = some (text, chars.length) := by
  induction h with
  | close => exact decode_close quote rest
  | @escaped c chars text hc _ ih =>
      have hpair : (decide ('\\' = '\\') && (decide (c = quote) || decide (c = '\\'))) = true := by
        simp only [decide_true, Bool.true_and, Bool.or_eq_true, decide_eq_true_eq]
        exact hc
      rw [List.cons_append, List.cons_append, decode, if_neg hq.symm, if_pos hpair, ih]
      rfl
  | @plain c chars text hquote hprintable hpair hothers ih =>
      rcases hothers.exists_cons with ⟨d, tail, rfl⟩
      have hno : ¬ (decide (c = '\\') && (decide (d = quote) || decide (d = '\\'))) = true := by
        simp only [Bool.and_eq_true, Bool.or_eq_true, decide_eq_true_eq]
        rintro ⟨hc, hd | hd⟩
        · exact (hpair hc d rfl).1 hd
        · exact (hpair hc d rfl).2 hd
      rw [List.cons_append, List.cons_append, decode, if_neg hquote, if_neg hno, if_pos hprintable,
        ← List.cons_append, ih]
      rfl

/-- What decoding takes are items and a closing quote. -/
theorem spells_of_decode {quote : Char} {input text : List Char} {extent : Nat}
    (h : decode quote input = some (text, extent)) :
    ∃ chars rest, input = chars ++ rest ∧ Spells quote chars text ∧ chars.length = extent := by
  fun_induction decode quote input generalizing text extent with
  | case1 => exact absurd h (by simp only [reduceCtorEq, not_false_eq_true])
  -- The closing quote is the last character.
  | case2 =>
      simp only [Option.some.injEq, Prod.mk.injEq] at h
      exact ⟨[quote], [], rfl, h.1 ▸ .close, h.2⟩
  | case3 => exact absurd h (by simp only [reduceCtorEq, not_false_eq_true])
  -- The closing quote is in front of other characters.
  | case4 d rest =>
      simp only [Option.some.injEq, Prod.mk.injEq] at h
      exact ⟨[quote], d :: rest, rfl, h.1 ▸ .close, h.2⟩
  -- A backslash goes with the character behind it.
  | case5 c d rest hquote hpair ih =>
      rcases Option.map_eq_some_iff.mp h with ⟨⟨inner, n⟩, hinner, hout⟩
      simp only [Prod.mk.injEq] at hout
      rcases ih hinner with ⟨chars, left, rfl, hspells, hn⟩
      simp only [Bool.and_eq_true, Bool.or_eq_true, decide_eq_true_eq] at hpair
      refine ⟨c :: d :: chars, left, rfl, ?_, ?_⟩
      · rw [← hout.1, hpair.1]
        exact .escaped hpair.2 hspells
      · rw [← hout.2, ← hn]
        rfl
  -- A character denotes itself. A backslash does so too, in front of none that it escapes.
  | case6 c d rest hquote hpair hc ih =>
      rcases Option.map_eq_some_iff.mp h with ⟨⟨inner, n⟩, hinner, hout⟩
      simp only [Prod.mk.injEq] at hout
      rcases ih hinner with ⟨chars, left, hrest, hspells, hn⟩
      simp only [Bool.and_eq_true, Bool.or_eq_true, decide_eq_true_eq] at hpair
      rcases hspells.exists_cons with ⟨d', tail, rfl⟩
      rw [List.cons_append, List.cons.injEq] at hrest
      refine ⟨c :: d' :: tail, left, by rw [hrest.1, hrest.2]; rfl, ?_, ?_⟩
      · rw [← hout.1]
        refine .plain hquote hc (fun hback e he => ?_) hspells
        rw [List.head?_cons, Option.mem_some_iff] at he
        rw [← he, ← hrest.1]
        exact ⟨fun hd => hpair ⟨hback, .inl hd⟩, fun hd => hpair ⟨hback, .inr hd⟩⟩
      · rw [← hout.2, ← hn]
        rfl
  | case7 => exact absurd h (by simp only [reduceCtorEq, not_false_eq_true])

/-- The items of a text and a closing quote spell the text. -/
theorem spells_escape (quote : Char) {text : List Char} (h : ∀ c ∈ text, isPrintable c = true) :
    Spells quote (escape quote text ++ [quote]) text := by
  induction text with
  | nil => exact .close
  | cons c text ih =>
      have ih := ih fun d hd => h d (List.mem_cons_of_mem c hd)
      rw [escape]
      split
      · next hescaped =>
          rw [Bool.or_eq_true, decide_eq_true_eq, decide_eq_true_eq] at hescaped
          exact .escaped hescaped ih
      · next hplain =>
          rw [Bool.or_eq_true, decide_eq_true_eq, decide_eq_true_eq, not_or] at hplain
          exact .plain hplain.1 (h c List.mem_cons_self) (fun hback => absurd hback hplain.2) ih

end Quoted

end Text

namespace Reading

/-- A quoted text is read item by item. -/
theorem relates_quoted (quote : Char) : Relates (Parser.quoted quote) fun text value left =>
    ∃ chars, text = quote :: (chars ++ left) ∧ Text.Quoted.Spells quote chars value.toList := by
  constructor
  intro text value after h
  rw [Parser.quoted] at h
  split at h
  · next hopens =>
      rcases List.head?_eq_some_iff.mp (opensWith_ofList_iff.mp hopens) with ⟨rest, rfl⟩
      split at h
      · next denoted extent hdecode =>
          rcases Text.Quoted.spells_of_decode hdecode with ⟨chars, left, hrest, hspells, hn⟩
          rw [Outcome.done.injEq] at h
          refine ⟨left, ?_, chars, ?_, ?_⟩
          · rw [← h.2, Rest.drop_ofList, List.drop_succ_cons, ← hn]
            rw [show rest = chars ++ left from hrest, List.drop_left]
          · rw [show rest = chars ++ left from hrest]
          · rw [← h.1, String.toList_ofList]
            exact hspells
      · exact absurd h (by simp only [Parser.outcome_fail, reduceCtorEq, not_false_eq_true])
  · exact absurd h (by simp only [Parser.outcome_fail, reduceCtorEq, not_false_eq_true])

/-- Items between quotes are taken, and the closing quote with them. -/
theorem quoted_of_spells {quote : Char} (hq : quote ≠ '\\') {rest : Rest}
    {chars value left : List Char} (h : Text.Quoted.Spells quote chars value)
    (hrest : rest.chars = quote :: (chars ++ left)) :
    Parser.quoted quote rest =
      ⟨.done (String.ofList value) (rest.drop (chars.length + 1)), none⟩ := by
  have hopens : rest.opensWith quote = true := by
    rw [Rest.opensWith, hrest, List.head?_cons, decide_eq_true_eq]
  have hdecode : Text.Quoted.decode quote rest.chars.tail = some (value, chars.length) := by
    rw [hrest]
    exact Text.Quoted.decode_of_spells hq h left
  rw [Parser.quoted, if_pos hopens, hdecode]

/-- Items between quotes are read, whatever follows. -/
theorem reads_quoted {E : Abort → Prop} {quote : Char} (hq : quote ≠ '\\')
    {chars : List Char} {value : String} (h : Text.Quoted.Spells quote chars value.toList) (left : List Char) :
    ReadsUnless E (Parser.quoted quote) (quote :: (chars ++ left)) value left := by
  refine .inl ?_
  rw [quoted_of_spells hq h (Rest.chars_ofList _)]
  simp only [String.ofList_toList, Rest.drop_ofList, List.drop_succ_cons, List.drop_left]

/-- Without an opening quote there is no quoted text. -/
theorem misses_quoted {E : Abort → Prop} {quote : Char} {text : List Char}
    (h : text.head? ≠ some quote) :
    MissesUnless E (Parser.quoted quote) text := by
  rw [MissesUnless, Parser.quoted, if_neg (mt opensWith_ofList_iff.mp h)]
  exact .inl ⟨_, rfl⟩

end Reading

end Tptp
