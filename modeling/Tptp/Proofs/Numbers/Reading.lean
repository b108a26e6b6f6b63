import Tptp.Proofs.Numbers.Limit
import Tptp.Proofs.Numbers.Literal
import Tptp.Proofs.WholeText
import Tptp.Read

/-!
# Reading Numbers

The texts that are numbers.

A text is a number if it is a valid literal with layout around it, and if what stands in the
literal can be held. Such a text is read as what its pieces say. A literal that cannot be held
is given up, and every other text does not match.

## Theorems

* `NumberLiteral.spelling_iff`: The spellings of numbers are the valid literals.
* `NumberLiteral.exists_givesUp`, `NumberLiteral.reads`: Literals out of and within limits.
* `Read.number_exact`: Numbers are read from the valid literals, and as what these denote.
-/

namespace Tptp

open Reading

/-- The spellings of a number are the literals that are read as it. -/
theorem NumberLiteral.spelling_iff {spelling : List Char} {n : Number} :
    NumberSpelling spelling n ↔
      ∃ literal : NumberLiteral, literal.Valid ∧ literal.chars = spelling ∧ literal.ReadsAs n := by
  constructor
  · intro h
    cases h with
    | @decimal literal hvalid =>
        have hvalid : (decimal literal).Valid := hvalid
        exact ⟨decimal literal, hvalid, rfl, (readsAs_iff hvalid).mpr rfl⟩
    | @fraction sign above gap below hsign habove hgap hbelow hpos =>
        have hdigit := (Numeral.value_ne_zero_iff hbelow.2).mp hpos
        exact ⟨.fraction sign above gap below, ⟨hsign, habove, hgap, hbelow, hdigit⟩, rfl,
          .rational sign above gap below⟩
  · rintro ⟨literal, hvalid, rfl, hread⟩
    rw [(readsAs_iff hvalid).mp hread]
    cases literal with
    | fraction sign above gap below =>
        rcases hvalid with ⟨hsign, habove, hgap, hbelow, hdigit⟩
        exact .fraction hsign habove hgap hbelow ((Numeral.value_ne_zero_iff hbelow.2).mpr hdigit)
    | decimal literal => exact .decimal hvalid

namespace Reading

/-- A number does not open layout. -/
theorem significant_of_numberSpelling {spelling : List Char} {n : Number}
    (h : NumberSpelling spelling n) (left : List Char) : Significant (spelling ++ left) := by
  rcases h.exists_cons with ⟨c, rest, rfl, hc⟩
  have hne : ∀ d, (d.isDigit || d == '+' || d == '-') = false → c ≠ d := by
    rintro d hd rfl
    exact absurd (hc.symm.trans hd) (by decide)
  refine significant_cons ?_ (hne '%' (by decide)) (hne '/' (by decide))
  rw [Bool.or_eq_true, Bool.or_eq_true, beq_iff_eq, beq_iff_eq] at hc
  rcases hc with (hdigit | rfl) | rfl
  · exact Text.not_isBlank_of_isWordChar c (Text.isWordChar_of_isDigit hdigit)
  · decide
  · decide

theorem numberEnds_nil : NumberEnds [] :=
  fun c hc => absurd hc (Option.not_mem_none c)

end Reading

namespace NumberLiteral

/-- A literal that cannot be held is given up. -/
theorem exists_givesUp {literal : NumberLiteral} (hvalid : literal.Valid)
    (hout : ¬ literal.InLimits) {behind : List Char} (hskips : Skips behind []) :
    ∃ reason, GivesUp reason Grammar.number (literal.chars ++ behind) := by
  have hends := numberEnds_of_skips hskips numberEnds_nil
  cases literal with
  | fraction sign above gap below =>
      rcases hvalid with ⟨hsign, habove, hgap, hbelow, -⟩
      simp only [chars, List.append_assoc, List.cons_append]
      rcases Nat.lt_or_ge Numeral.digitLimit above.length with hlong | hshort
      · exact ⟨_, givesUp_number_of_leading hsign habove hlong (hgap.digitsEnd _)⟩
      · have hlong : Numeral.digitLimit < below.length :=
          Nat.not_le.mp fun hbelow => hout ⟨hshort, hbelow⟩
        exact ⟨_, givesUp_number_of_denominator hsign habove hshort hgap hbelow hlong
          hends.digitsEnd⟩
  | decimal literal =>
      have hvalid : literal.Valid := hvalid
      -- The leading digits are tried as the integer of a fraction before anything else.
      rcases Nat.lt_or_ge Numeral.digitLimit literal.whole.length with hlong | hshort
      · simp only [chars, DecimalLiteral.chars, List.append_assoc]
        exact ⟨_, givesUp_number_of_leading hvalid.sign hvalid.whole hlong
          (DecimalLiteral.digitsEnd_tail hvalid hends)⟩
      · have hrange : literal.value.isRepresentable = false :=
          Bool.not_eq_true _ ▸ fun hrange => hout ⟨hshort, hrange⟩
        exact ⟨_, givesUp_number_of_decimal hvalid hshort hrange hskips significant_nil
          numberEnds_nil (Option.some_ne_none _).symm⟩

/-- A literal that can be held is read. -/
theorem reads {literal : NumberLiteral} (hvalid : literal.Valid) (hlimits : literal.InLimits)
    {behind : List Char} (hskips : Skips behind []) :
    ReadsUnless (fun _ => False) Grammar.number (literal.chars ++ behind) literal.number [] := by
  have hexcused : ∀ {digits : List Char}, digits.length ≤ Numeral.digitLimit →
      ExcusesDigits (fun _ => False) digits := fun hshort hlong =>
    absurd hshort (Nat.not_le.mpr hlong)
  cases literal with
  | fraction sign above gap below =>
      rcases hvalid with ⟨hsign, habove, hgap, hbelow, hdigit⟩
      exact reads_number_of_fraction hsign habove (hexcused hlimits.1) hgap hbelow
        (hexcused hlimits.2) ((Numeral.value_ne_zero_iff hbelow.2).mpr hdigit) hskips
        significant_nil numberEnds_nil
  | decimal literal =>
      exact reads_number_of_decimal hvalid (hexcused hlimits.1)
        (fun hrange => absurd (hrange.symm.trans hlimits.2) Bool.false_ne_true) hskips
        significant_nil numberEnds_nil (Option.some_ne_none _).symm

end NumberLiteral

/-- A text is read as a number exactly if it is a valid literal, with layout around it, that
    can be held and is read as this number. Every valid literal is read as one number, which
    is the number that the literal denotes. -/
theorem Read.number_exact :
    (∀ text n, Read.number text = .ok n ↔
      ∃ (literal : NumberLiteral) (behind : List Char), literal.Valid ∧ literal.InLimits ∧
        Skips text.toList (literal.chars ++ behind) ∧ Skips behind [] ∧ literal.ReadsAs n) ∧
    ∀ literal : NumberLiteral, literal.Valid →
      ∃ n, (∀ m, literal.ReadsAs m ↔ m = n) ∧ n.toRat = literal.toRat := by
  refine ⟨fun text n => ⟨fun h => ?_, ?_⟩, fun literal hvalid =>
    ⟨literal.number, fun _ => NumberLiteral.readsAs_iff hvalid, literal.toRat_number⟩⟩
  · rcases read_ok_iff.mp h with ⟨after, hdone, hnil⟩
    rcases Parser.bind_done hdone with ⟨_, _, hskip, hnumber⟩
    rcases relates_skipLayout.sound hskip with ⟨start, rfl, hskips, -⟩
    rcases relates_number.sound hnumber with
      ⟨left, rfl, spelling, behind, rfl, hspelling, hbehind, -⟩
    rw [Rest.chars_ofList] at hnil
    subst hnil
    rcases NumberLiteral.spelling_iff.mp hspelling with ⟨literal, hvalid, rfl, hread⟩
    refine ⟨literal, behind, hvalid, ?_, hskips, hbehind, hread⟩
    -- What was read was not given up.
    by_contra hout
    rcases NumberLiteral.exists_givesUp hvalid hout hbehind with ⟨reason, hgivesUp⟩
    exact absurd (hnumber.symm.trans hgivesUp) nofun
  · rintro ⟨literal, behind, hvalid, hlimits, hskips, hbehind, hread⟩
    have hspelling := NumberLiteral.spelling_iff.mpr ⟨literal, hvalid, rfl, hread⟩
    rw [(NumberLiteral.readsAs_iff hvalid).mp hread]
    exact read_ok_of_reads hskips (significant_of_numberSpelling hspelling behind)
      (NumberLiteral.reads hvalid hlimits hbehind)

/-- A fraction and an exponent may cancel out, and then the number is an integer. -/
example : (Read.number " -1.50e2 % one hundred and fifty").toOption = some (.integer (-150)) := by
  decide +kernel

end Tptp
