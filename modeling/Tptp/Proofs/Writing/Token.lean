import Tptp.Proofs.Syntax.Lexeme
import Tptp.Proofs.WellFormed
import Tptp.Proofs.Writing.Reads

/-!
# Reading Written Names and Numbers Back

The canonical texts of names, reserved words and numbers.

An atom is always quoted, so it is never taken for a keyword. A reserved word is read
as a member of the vocabulary of its place exactly if the vocabulary has it, which an
extended word excludes. Integers are read in one way, and a rational or a real number
is not mistaken for the integer that it starts with.

## Theorems

* `readsBack_atom`, `readsBack_var`, `readsBack_reserved`: Names and words.
* `readsBack_signedInteger`, `readsBack_number`: Numbers.
* `readsBack_unitName`, `readsBack_symbol`: Names of units and symbols.
-/

namespace Tptp

namespace Writing

open Reading Parser Text Syntax Grammar

variable {signs text left : List Char}

theorem EndsIn.stops (h : EndsIn signs left) (hsub : signs ⊆ stoppers) : Stops left :=
  h.mono hsub

theorem separators_subset : separators ⊆ stoppers :=
  List.all_iff_forall_prop.mp (by decide)

/-- An atom opens with its quote. -/
theorem opens_atom (a : Atom) : Opens a.written :=
  ⟨'\x27', _, rfl, by decide⟩

/-- The canonical text of an atom spells it. -/
theorem spelling_written {a : Atom} (h : a.WellFormed) : Spelling (.atom a) a.written := by
  rw [Atom.WellFormed, Atom.isValid, Bool.and_eq_true, Bool.not_eq_true'] at h
  have hne : a.text.isEmpty = false := by
    rw [Bool.eq_false_iff]
    intro hempty
    rw [String.isEmpty_iff.mp hempty] at h
    exact absurd h.1 (by decide)
  exact .quotedAtom hne (Quoted.spells_escape '\x27' (List.all_eq_true.mp h.2))

theorem readsBack_atom {a : Atom} (h : a.WellFormed) (hsub : signs ⊆ stoppers) :
    ReadsBack signs atom a a.written := fun left hleft =>
  reads_atom (spells_singleton.mpr ⟨_, left, rfl, spelling_written h, .nil left⟩)
    (hleft.stops hsub).tokenEnds

theorem opens_var {v : Var} (h : v.WellFormed) : Opens v.text.toList := by
  rw [Var.WellFormed, Var.isValid] at h
  rcases htext : v.text.toList with _ | ⟨c, rest⟩
  · rw [htext] at h
    exact absurd h Bool.false_ne_true
  · rw [htext, Text.isUpperWord, Bool.and_eq_true] at h
    exact ⟨c, rest, rfl, by rw [Text.isWordChar_of_isUpper h.1, Bool.true_or]⟩

theorem readsBack_var {v : Var} (h : v.WellFormed) (hsub : signs ⊆ stoppers) :
    ReadsBack signs var v v.text.toList := fun left hleft =>
  reads_var (spells_singleton.mpr ⟨_, left, rfl, .var h, .nil left⟩) (hleft.stops hsub).tokenEnds

section

variable {V : Type} [Vocabulary V] {word : Reserved V}

/-- A reserved word is spelled in lower case letters, if the members of its vocabulary are. -/
theorem isLowerWord_text (hlower : ∀ v : V, Text.isLowerWord (Vocabulary.canonical v).toList = true)
    (h : word.WellFormed) : Text.isLowerWord word.text.toList = true := by
  cases word with
  | standard v => exact hlower v
  | extended text => exact h.1

/-- Reading the spelling of a reserved word gives the word back. -/
theorem ofWord_text (h : word.WellFormed) : Reserved.ofWord word.text = word := by
  cases word with
  | standard v => exact Reserved.ofWord_canonical v
  | extended text => exact (Reserved.ofWord_eq_extended_iff text).mpr h.2

theorem opens_reserved
    (hlower : ∀ v : V, Text.isLowerWord (Vocabulary.canonical v).toList = true)
    (h : word.WellFormed) : Opens word.text.toList := by
  have hword := isLowerWord_text hlower h
  rcases htext : word.text.toList with _ | ⟨c, rest⟩
  · rw [htext] at hword
    exact absurd hword Bool.false_ne_true
  · rw [htext, Text.isLowerWord, Bool.and_eq_true] at hword
    exact ⟨c, rest, rfl, by rw [Text.isWordChar_of_isLower hword.1, Bool.true_or]⟩

theorem readsBack_reserved
    (hlower : ∀ v : V, Text.isLowerWord (Vocabulary.canonical v).toList = true)
    (h : word.WellFormed) (hsub : signs ⊆ stoppers) :
    ReadsBack signs (reserved V) word word.text.toList := by
  intro left hleft
  have hstops := hleft.stops hsub
  have hread : ReadsUnless (· = .tooDeep) (lexeme lowerWord) (word.text.toList ++ left) word.text
      left :=
    reads_lexeme (reads_lowerWord (isLowerWord_text hlower h) hstops.wordEnds) (.nil left)
      hstops.significant
  have hvalue := (hread.map (Reserved.ofWord (V := V))).labeled "reserved"
  rw [ofWord_text h] at hvalue
  exact hvalue

end

/-- The members of these vocabularies are spelled in lower case letters. -/
theorem isLowerWord_success (v : Success) :
    Text.isLowerWord (Vocabulary.canonical v).toList = true := by
  cases v <;> decide

theorem isLowerWord_definedSort (v : DefinedSort) :
    Text.isLowerWord (Vocabulary.canonical v).toList = true := by
  cases v <;> decide

theorem isLowerWord_intro (v : Intro) :
    Text.isLowerWord (Vocabulary.canonical v).toList = true := by
  cases v <;> decide

/-- The sign that an integer is written with. -/
def signOf (n : Int) : Option Char :=
  if n < 0 then some '-' else none

theorem isSign_signOf (n : Int) : IsSign (signOf n) := by
  intro c hc
  rw [signOf] at hc
  split at hc
  · exact .inr (Option.mem_some_iff.mp hc).symm
  · exact absurd hc (Option.not_mem_none c)

theorem toList_intText (n : Int) :
    (Numeral.intText n).toList = (signOf n).toList ++ Numeral.digits n.natAbs := by
  rw [Numeral.intText, String.toList_ofList, signOf]
  split
  · rfl
  · rfl

/-- The sign and the digits of an integer denote it. -/
theorem signedValue_signOf (n : Int) :
    signedValue (signOf n) (Numeral.value (Numeral.digits n.natAbs)) = n := by
  rw [Numeral.value_digits, signedValue, signOf]
  split
  · simp only [if_true]
    omega
  · simp only [reduceCtorEq, if_false]
    omega

/-- The text opens with a digit or with a minus sign. -/
def OpensNumber (text : List Char) : Prop :=
  ∃ c rest, text = c :: rest ∧ (c.isDigit || c == '-') = true

theorem OpensNumber.append (h : OpensNumber text) (more : List Char) :
    OpensNumber (text ++ more) := by
  rcases h with ⟨c, rest, rfl, hc⟩
  exact ⟨c, rest ++ more, rfl, hc⟩

theorem OpensNumber.opens (h : OpensNumber text) : Opens text := by
  rcases h with ⟨c, rest, rfl, hc⟩
  refine ⟨c, rest, rfl, ?_⟩
  rcases Bool.or_eq_true_iff.mp hc with hdigit | hminus
  · rw [Text.isWordChar_of_isDigit hdigit, Bool.true_or]
  · rw [beq_iff_eq] at hminus
    rw [hminus]
    decide

/-- A number opens as no name and no keyword does. -/
theorem OpensNumber.head? (h : OpensNumber text) (left : List Char) :
    ∀ c ∈ (text ++ left).head?, c ≠ '$' ∧ c ≠ '\x27' ∧ c.isLower = false := by
  rcases h with ⟨c, rest, rfl, hc⟩
  intro d hd
  rw [List.cons_append, List.head?_cons, Option.mem_some_iff] at hd
  rw [← hd]
  rcases Bool.or_eq_true_iff.mp hc with hdigit | hminus
  · have hrange := (Text.isDigit_iff c).mp hdigit
    refine ⟨?_, ?_, Bool.eq_false_iff.mpr fun hlower => ?_⟩
    · rintro rfl
      exact absurd hdigit (by decide)
    · rintro rfl
      exact absurd hdigit (by decide)
    · have hlower := (Text.isLower_iff c).mp hlower
      omega
  · rw [beq_iff_eq] at hminus
    rw [hminus]
    decide

theorem opensNumber_digits (n : Nat) : OpensNumber (Numeral.digits n) := by
  rcases (digits_digits n).exists_cons with ⟨c, rest, hdigits, hc⟩
  exact ⟨c, rest, hdigits, by rw [hc, Bool.true_or]⟩

theorem opensNumber_intText (n : Int) : OpensNumber (Numeral.intText n).toList := by
  rw [toList_intText, signOf]
  split
  · exact ⟨'-', _, rfl, by decide⟩
  · exact opensNumber_digits n.natAbs

theorem opensNumber_written (n : Number) : OpensNumber n.written := by
  cases n with
  | integer n => exact opensNumber_intText n
  | rational n d => exact (opensNumber_intText n).append _
  | real d =>
      rw [Number.written, Decimal.written, List.append_assoc]
      split
      · exact ⟨'-', _, rfl, by decide⟩
      · exact (opensNumber_digits _).append _

/-- Digits within the limit are not too many. -/
theorem excusesDigits {n : Nat} (h : (Numeral.digits n).length ≤ Numeral.digitLimit)
    (E : Abort → Prop) : ExcusesDigits E (Numeral.digits n) :=
  fun hlong => absurd hlong (Nat.not_lt.mpr h)

theorem readsBack_signedInteger {n : Int} (h : Numeral.InLimit n) (hsub : signs ⊆ stoppers) :
    ReadsBack signs signedInteger n (Numeral.intText n).toList := by
  intro left hleft
  have hstops := hleft.stops hsub
  have hread := reads_signedInteger (isSign_signOf n) (digits_digits n.natAbs)
    (excusesDigits h (· = .tooDeep)) hstops.numberEnds.digitsEnd (.nil left) hstops.significant
  rw [signedValue_signOf, ← List.append_assoc, ← toList_intText] at hread
  exact hread

/-- A decimal literal is read back as the number that it denotes. -/
theorem readsBack_literal {literal : DecimalLiteral} (hvalid : literal.Valid)
    (hlong : literal.whole.length ≤ Numeral.digitLimit)
    (hrange : literal.value.isRepresentable = true) (hsub : signs ⊆ stoppers) :
    ReadsBack signs number (.ofDecimal literal.value) literal.chars := by
  intro left hleft
  have hstops := hleft.stops hsub
  refine reads_number_of_decimal hvalid (fun h => absurd h (Nat.not_lt.mpr hlong)) (fun h => ?_)
    (.nil left) hstops.significant hstops.numberEnds hstops.ne_slash
  rw [hrange] at h
  exact absurd h.symm Bool.false_ne_true

/-- An integer within the limit can be held as a decimal. -/
theorem isRepresentable_of_inLimit {n : Nat} (negative : Bool)
    (h : (Numeral.digits n).length ≤ Numeral.digitLimit) :
    (Decimal.mk negative n 0).isRepresentable = true := by
  have hlength : (Numeral.digits n).length ≤ 4300 := h
  rw [Decimal.isRepresentable, Decimal.leadingExponent, Decimal.digits, Decimal.greatestExponent,
    Decimal.leastExponent, Bool.and_eq_true, decide_eq_true_eq, decide_eq_true_eq]
  dsimp only
  omega

/-- The literal of some digits and an exponent. -/
theorem value_literal (sign : Option Char) (n : Nat) (exponent : Option ExponentLiteral) :
    (DecimalLiteral.mk sign (Numeral.digits n) none exponent).value =
      ⟨decide (sign = some '-'), n, (exponent.map ExponentLiteral.value).getD 0⟩ := by
  simp only [DecimalLiteral.value, Option.getD_none, List.append_nil, Numeral.value_digits,
    List.length_nil, Int.ofNat_zero, Int.sub_zero]

/-- An integer is read back from its text as a decimal without an exponent. -/
theorem readsBack_integer {n : Int} (h : Numeral.InLimit n) (hsub : signs ⊆ stoppers) :
    ReadsBack signs number (.integer n) (Numeral.intText n).toList := by
  have hvalid : (DecimalLiteral.mk (signOf n) (Numeral.digits n.natAbs) none none).Valid :=
    ⟨isSign_signOf n, digits_digits _, fun _ h => absurd h (Option.not_mem_none _),
      fun _ h => absurd h (Option.not_mem_none _)⟩
  have hread := readsBack_literal hvalid h (value_literal _ _ _ ▸ isRepresentable_of_inLimit _ h)
    hsub
  have hchars : (DecimalLiteral.mk (signOf n) (Numeral.digits n.natAbs) none none).chars =
      (Numeral.intText n).toList := by
    rw [toList_intText]
    exact (List.append_nil _).trans (List.append_nil _)
  have hvalue : Number.ofDecimal ⟨decide (signOf n = some '-'), n.natAbs, 0⟩ = .integer n := by
    have hsigned := signedValue_signOf n
    rw [Numeral.value_digits, signedValue] at hsigned
    rw [Number.ofDecimal, if_pos rfl, Decimal.signedCoefficient]
    simp only [decide_eq_true_eq]
    rw [hsigned]
  rw [value_literal, hchars] at hread
  exact hvalue ▸ hread

/-- The digits of an exponent denote it. -/
theorem value_exponent (n : Int) :
    ExponentLiteral.value ⟨'e', signOf n, Numeral.digits n.natAbs⟩ = n :=
  signedValue_signOf n

/-- A real number is read back from its coefficient and its exponent. -/
theorem readsBack_real {d : Decimal} (h : d.exponent ≠ 0) (hlong : Numeral.InLimit d.coefficient)
    (hrange : d.isRepresentable = true) (hsub : signs ⊆ stoppers) :
    ReadsBack signs number (.real d) d.written := by
  -- What is written is a literal without a fraction, and all digits are in its whole part.
  let sign : Option Char := if d.negative then some '-' else none
  let exponent : ExponentLiteral := ⟨'e', signOf d.exponent, Numeral.digits d.exponent.natAbs⟩
  have hsign : decide (sign = some '-') = d.negative := by
    rcases hnegative : d.negative with _ | _
    · simp only [sign, hnegative, Bool.false_eq_true, if_false, reduceCtorEq, decide_false]
    · simp only [sign, hnegative, if_true, decide_true]
  have hvalid : (DecimalLiteral.mk sign d.digits none (some exponent)).Valid := by
    refine ⟨fun c hc => ?_, digits_digits _, fun _ h => absurd h (Option.not_mem_none _), ?_⟩
    · simp only [sign] at hc
      split at hc
      · exact .inr (Option.mem_some_iff.mp hc).symm
      · exact absurd hc (Option.not_mem_none c)
    · rintro e he
      rw [← Option.mem_some_iff.mp he]
      exact ⟨.inl rfl, isSign_signOf _, digits_digits _⟩
  have hvalue : (DecimalLiteral.mk sign d.digits none (some exponent)).value = d := by
    rw [Decimal.digits, value_literal, hsign, Option.map_some, Option.getD_some, value_exponent]
  have hchars : (DecimalLiteral.mk sign d.digits none (some exponent)).chars = d.written := by
    have hminus : sign.toList = if d.negative then ['-'] else [] := by
      simp only [sign]
      split <;> rfl
    rw [DecimalLiteral.chars, Decimal.written, hminus, toList_intText]
    simp only [DecimalLiteral.fractionChars, List.append_nil]
    rfl
  have hread := readsBack_literal hvalid hlong (by rw [hvalue]; exact hrange) hsub
  rw [hvalue, hchars, Number.ofDecimal, if_neg h] at hread
  exact hread

theorem readsBack_rational {n : Int} {d : Nat} (h : 0 < d) (hn : Numeral.InLimit n)
    (hd : Numeral.InLimit d) (hsub : signs ⊆ stoppers) :
    ReadsBack signs number (.rational n d)
      ((Numeral.intText n).toList ++ '/' :: Numeral.digits d) := by
  intro left hleft
  have hstops := hleft.stops hsub
  have hpos : Numeral.value (Numeral.digits d) ≠ 0 := by
    rw [Numeral.value_digits]
    omega
  have hread := reads_number_of_fraction (E := (· = .tooDeep)) (isSign_signOf n)
    (digits_digits n.natAbs) (excusesDigits hn _) .nil (digits_digits d) (excusesDigits hd _) hpos
    (.nil left) hstops.significant hstops.numberEnds
  rw [signedValue_signOf, Numeral.value_digits, List.nil_append, ← List.append_assoc,
    ← toList_intText] at hread
  exact hread

theorem readsBack_number {n : Number} (h : n.WellFormed) (hlimits : n.InLimits)
    (hsub : signs ⊆ stoppers) : ReadsBack signs number n n.written := by
  cases n with
  | integer n => exact readsBack_integer hlimits hsub
  | rational n d => exact readsBack_rational h hlimits.1 hlimits.2 hsub
  | real d => exact readsBack_real h hlimits.1 hlimits.2 hsub

section

variable {name : UnitName}

theorem opens_unitName (name : UnitName) : Opens name.written := by
  cases name with
  | atom a => exact opens_atom a
  | number n => exact (opensNumber_intText n).opens

theorem readsBack_unitName (h : name.WellFormed) (hlimits : name.InLimits)
    (hsub : signs ⊆ stoppers) : ReadsBack signs unitName name name.written := by
  cases name with
  | atom a => exact .labeled _ (((readsBack_atom h hsub).map _).orElse)
  | number n =>
      refine .labeled _ (.orElse_of_misses (fun left => .map (misses_atom fun c hc => ?_))
        ((readsBack_signedInteger hlimits hsub).map _))
      exact ((opensNumber_intText n).head? left c hc).2

end

theorem opens_symbol {s : Symbol} (h : s.WellFormed) : Opens s.written := by
  cases s with
  | var v => exact opens_var h
  | atom a => exact opens_atom a

/-- A symbol is a variable or an atom. -/
theorem readsBack_symbol {s : Symbol} (h : s.WellFormed) (hsub : signs ⊆ stoppers) :
    ReadsBack signs (Symbol.var <$> var <|> Symbol.atom <$> atom) s s.written := by
  cases s with
  | var v => exact ((readsBack_var h hsub).map _).orElse
  | atom a =>
      refine .orElse_of_misses (fun left => .map ?_) ((readsBack_atom h hsub).map _)
      refine .labeled _ (.bind (misses_lexeme (misses_word _ fun c hc => ?_)))
      rw [Symbol.written, Atom.written, Quoted.encode, List.cons_append, List.head?_cons,
        Option.mem_some_iff] at hc
      exact hc ▸ by decide

end Writing

end Tptp
