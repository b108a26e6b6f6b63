import Tptp.Proofs.Embedding.Allowance
import Tptp.Proofs.Embedding.Clear
import Tptp.Proofs.Embedding.Primitive
import Tptp.Proofs.WholeText
import Tptp.Read

/-!
# Formulas and Terms Inside of Brackets

What is read from a text as a whole is read from it where it stands in a larger one.

The end of the line behind the text is needed, since the text may end in a comment.
And a closing parenthesis or a comma has to follow, as it does wherever the language
has a place for a formula. Then the parser that has come to the end of the text when
it stood by itself stops in front of this sign.

## Theorems

* `exists_start_of_read`: From where on the text is read in the larger one.
* `reads_of_curtails`: What the allowance has to do with it.
* `reads_inside`: What is read behind an opening parenthesis.
* `reads_language`: The name of a language in front of a parenthesis.
* `reads_formula_inside`, `reads_term_inside`: Formulas and terms in parentheses.
-/

namespace Tptp

namespace Reading

variable {α : Type} {close : Char}

/-- What is read as a whole is read in front of a sign on the next line. -/
theorem exists_start_of_read {commas : Bool} {p : Parser α} (hp : Composed false commas p)
    (hclears : Clears p) (hclose : Closes close) (hmem : close ∈ closers commas) {text : String}
    {value : α} (h : read p text = .ok value) (later : List Char) :
    ∃ start, Skips (text.toList ++ '\n' :: close :: later) start ∧ Significant start ∧
      (p (.ofList start)).outcome = .done value (.ofList (close :: later)) := by
  rcases read_ok_iff.mp h with ⟨after, hdone, hnil⟩
  have hwhole : Composed false commas (Parser.skipLayout >>= fun _ => p) :=
    .bind .layout fun _ => hp
  rcases hwhole.balanced.sound hdone with ⟨left, rfl, hsurplus⟩
  rw [Rest.chars_ofList] at hnil
  rw [hnil, surplus_nil] at hsurplus
  rw [hnil] at hdone
  have hlong : Embeds close later text.toList (text.toList ++ '\n' :: close :: later) := .line _
  have hmirrors := hwhole.mirrored hclose
    ⟨0, hsurplus, Int.le_refl 0, fun hnot => absurd hmem hnot⟩ hlong
  -- The text is matched up to its end, so the larger one is matched up to the end of the line
  -- or up to the sign. Since no layout is left it is the sign.
  rw [hdone] at hmirrors
  generalize houtcome : ((Parser.skipLayout >>= fun _ => p) _).outcome = outcome at hmirrors
  cases hmirrors with
  | done hleft =>
      rcases Parser.bind_done houtcome with ⟨_, start, hlayout, hvalue⟩
      rcases relates_skipLayout.sound hlayout with ⟨start, rfl, hskips, hstart⟩
      rcases hclears.sound hvalue with ⟨last, hlast, hclear⟩
      rw [← Rest.ofList_inj hlast] at hclear
      cases hleft with
      | line => exact absurd (hclear.1 '\n' rfl).1 (by decide)
      | last => exact ⟨start, hskips, hstart, hvalue⟩

/-- What one part of the allowance suffices for is read with any other part of it, unless
    this is too little. -/
theorem reads_of_curtails {p : Nat → Parser α}
    (h : ∀ {m n}, m ≤ n → Curtails (p m) (p n)) {n : Nat} {text left : List Char} {value : α}
    (hdone : (p n (.ofList text)).outcome = .done value (.ofList left)) (m : Nat) :
    ReadsUnless (· = .tooDeep) (p m) text value left := by
  rcases Nat.le_total m n with hmn | hnm
  · exact (h hmn).reads hdone
  · rcases h hnm (.ofList text) with hdeep | hsame
    · rw [hdeep] at hdone
      exact absurd hdone (by simp only [reduceCtorEq, not_false_eq_true])
    · exact .inl (hsame.symm.trans hdone)

/-- What is read as a whole is read inside of parentheses, also by a parser that goes on
    with the value. -/
theorem reads_inside {β : Type} {p : Nat → Parser α} (hp : ∀ n, Composed false false (p n))
    (hclears : ∀ n, Clears (p n)) (hcurtails : ∀ {m n}, m ≤ n → Curtails (p m) (p n)) {n m : Nat}
    {text : String} {value : α} (h : read (p n) text = .ok value) {q : Parser β} {result : β}
    (hq : ∀ {start last}, ReadsUnless (· = .tooDeep) (Parser.optionalParens p m) start value last →
      ReadsUnless (· = .tooDeep) q start result last) {left : List Char}
    (hleft : Significant left) :
    ReadsUnless (· = .tooDeep) (Parser.parens q) ('(' :: (text.toList ++ '\n' :: ')' :: left))
      result left := by
  rcases exists_start_of_read (hp n) (hclears n) (.inl rfl) (by decide) h left with
    ⟨start, hskips, hstart, hdone⟩
  exact reads_parens ⟨_, rfl, hskips⟩ hstart
    (hq (reads_optionalParens (fun _ => reads_of_curtails hcurtails hdone _)
      (.inr rfl : Allows _ (0 + 1) m))) ⟨_, rfl, .nil _⟩ hleft

end Reading

namespace Grammar

open Reading Parser

variable {left : List Char}

/-- The name of a language is read in front of a parenthesis. -/
theorem reads_language {E : Abort → Prop} (language : Language) (rest : List Char) :
    ReadsUnless E Grammar.language ((Vocabulary.canonical language).toList ++ '(' :: rest) language
      ('(' :: rest) := by
  refine .labeled _ (reads_lexeme (reads_named (fun _ c hc => ?_) fun other _ => ?_) (.nil _) ?_)
  · rw [List.head?_cons, Option.mem_some_iff] at hc
    exact hc ▸ by decide
  · -- All names of languages are of one length.
    cases other <;> cases language <;> decide
  · exact significant_cons (by decide) (by decide) (by decide)

/-- A formula that is read as a whole is read inside of parentheses. -/
theorem reads_formula_inside {language : Language} {text : String} {f : Formula}
    (h : Read.formula (some language) text = .ok f) (allowance : Nat) (hleft : Significant left) :
    ReadsUnless (· = .tooDeep) (parens (optionalParens (formula language) allowance))
      ('(' :: (text.toList ++ '\n' :: ')' :: left)) f left :=
  reads_inside (composed_formula language) (clears_formula language) (curtails_formula language) h
    (fun h => h) hleft

/-- A term that is read as a whole is read inside of parentheses, as what is quoted. -/
theorem reads_term_inside {text : String} {t : Term} (h : Read.term text = .ok t)
    (allowance : Nat) (hleft : Significant left) :
    ReadsUnless (· = .tooDeep) (parens (Expression.term <$> termArgument allowance))
      ('(' :: (text.toList ++ '\n' :: ')' :: left)) (.term t) left := by
  rw [termArgument_eq]
  exact reads_inside composed_term clears_term curtails_term h (fun h => h.map _) hleft

end Grammar

end Tptp
