import Tptp.Text.CharClass

/-!
# Quoted Text

Text between quotes, as the language writes it.

The language quotes a name or a distinct object: between two quotes stand
printable ASCII characters, and a backslash escapes a quote or another
backslash. Reading is lenient, a backslash in front of anything else standing
for itself, so several spellings denote one text; writing escapes every quote
and every backslash, which gives each text one spelling.

## Main definitions

* `escape`: The items of a text between quotes.
* `encode`: The one spelling of a text between quotes.
* `decode`: What the text after an opening quote denotes, and its extent.

## Theorems

* `decode_encode`: Reading what was written gives it back, whatever follows.
* `decode_length_le`: The extent of a quoted text lies within the text.
-/

namespace Tptp

namespace Text

namespace Quoted

/-- The items of a text between quotes: a quote or a backslash is escaped by a
    backslash, any other character stands for itself. -/
def escape (quote : Char) : List Char → List Char
  | [] => []
  | c :: rest =>
    if c = quote || c = '\\' then '\\' :: c :: escape quote rest
    else c :: escape quote rest

/-- The one spelling of a text between quotes. -/
def encode (quote : Char) (text : List Char) : List Char :=
  quote :: (escape quote text ++ [quote])

/-- Reads what follows an opening quote: the text denoted, and the number of
    characters up to and including the closing quote. There is none if the text
    ends first or a character is met that may not stand between quotes. -/
def decode (quote : Char) : List Char → Option (List Char × Nat)
  | [] => none
  | [c] => if c = quote then some ([], 1) else none
  | c :: d :: rest =>
    if c = quote then some ([], 1)
    -- A backslash in front of anything else is an item of its own.
    else if c = '\\' && (d = quote || d = '\\') then
      (decode quote rest).map fun (text, extent) => (d :: text, extent + 2)
    else if isPrintable c then
      (decode quote (d :: rest)).map fun (text, extent) => (c :: text, extent + 1)
    else none

/-- The extent of a quoted text lies within the text that was read. -/
theorem decode_length_le (quote : Char) (input text : List Char) (extent : Nat)
    (h : decode quote input = some (text, extent)) :
    0 < extent ∧ extent ≤ input.length := by
  fun_induction decode quote input generalizing text extent with
  | case1 => simp only [reduceCtorEq] at h
  | case2 => simp_all only [Option.some.injEq, Prod.mk.injEq, List.length_cons]; omega
  | case3 => simp only [reduceCtorEq] at h
  | case4 => simp_all only [Option.some.injEq, Prod.mk.injEq, List.length_cons]; omega
  | case5 c d rest _ _ ih =>
      obtain ⟨⟨inner, n⟩, hin, hout⟩ := Option.map_eq_some_iff.mp h
      have := ih inner n hin
      simp only [Prod.mk.injEq] at hout
      simp only [List.length_cons]
      omega
  | case6 c d rest _ _ _ ih =>
      obtain ⟨⟨inner, n⟩, hin, hout⟩ := Option.map_eq_some_iff.mp h
      have := ih inner n hin
      simp only [Prod.mk.injEq] at hout
      simp only [List.length_cons] at this ⊢
      omega
  | case7 => simp only [reduceCtorEq] at h

/-- A closing quote ends the text, whatever follows it. -/
theorem decode_close (quote : Char) (rest : List Char) :
    decode quote (quote :: rest) = some ([], 1) := by
  cases rest <;> simp only [decode, if_true]

/-- Reading the items of a text and its closing quote gives the text back,
    whatever follows, and stops at that quote. -/
theorem decode_escape (quote : Char) (hq : quote ≠ '\\') (text rest : List Char)
    (hp : ∀ c ∈ text, isPrintable c = true) :
    decode quote (escape quote text ++ quote :: rest) =
      some (text, (escape quote text).length + 1) := by
  induction text with
  | nil => simp only [escape, List.nil_append, decode_close, List.length_nil, Nat.zero_add]
  | cons c text ih =>
      have ih := ih fun d hd => hp d (List.mem_cons_of_mem c hd)
      by_cases h : (decide (c = quote) || decide (c = '\\')) = true
      -- An escaped item is read back as a pair.
      · rw [escape, if_pos h]
        simp only [List.cons_append, decode, if_neg hq.symm]
        rw [if_pos (by simpa using h), ih]
        simp only [Option.map_some, List.length_cons]
      -- Any other item is read alone, whatever item follows it.
      · rw [escape, if_neg h]
        obtain ⟨d, tail, ht⟩ : ∃ d tail, escape quote text ++ quote :: rest = d :: tail := by
          cases escape quote text with
          | nil => exact ⟨_, _, rfl⟩
          | cons d tail => exact ⟨_, _, rfl⟩
        simp only [Bool.or_eq_true, decide_eq_true_eq, not_or] at h
        simp only [List.cons_append, ht, decode, if_neg h.1]
        rw [if_neg (by simp [h.2]), if_pos (hp c List.mem_cons_self), ← ht, ih]
        simp only [Option.map_some, List.length_cons]

/-- Reading what was written gives it back, whatever follows. -/
theorem decode_encode (quote : Char) (hq : quote ≠ '\\') (text rest : List Char)
    (hp : ∀ c ∈ text, isPrintable c = true) :
    decode quote ((encode quote text).tail ++ rest) =
      some (text, (encode quote text).length - 1) := by
  simpa [encode] using decode_escape quote hq text rest hp

end Quoted

end Text

end Tptp
