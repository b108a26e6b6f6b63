import Tptp.Proofs.Writing.Token

/-!
# Reading Written Information Back

Pieces of information are read back from their texts.

A keyword is told from the keywords that are tried before it by its letters. All else
opens with another kind of character: an application with the quote of its name, a
quoted formula with a dollar sign, a number with a digit or a sign, and a list with its
bracket. So of the alternatives the one that is meant is the first that does not fail.

## Main definitions

* `InfoReadsBack`: A piece of information is read back with every part of the allowance.

## Theorems

* `misses_keyword`, `misses_keyword_of_head`: Alternatives that are passed over.
* `readsBack_expression`: Quoted formulas and terms.
* `readsBack_infoList`, `readsBack_infoArguments`: Lists of information.
* `readsBack_info`: Pieces of information.
-/

namespace Tptp

namespace Writing

open Reading Parser Text Syntax Grammar

variable {α : Type} {E : Abort → Prop} {signs text left : List Char}

section

variable {tag word : String} {p : Parser α}

/-- A word is passed over in front of another keyword. -/
theorem misses_token
    (h : tag.toList.take word.toList.length ≠ word.toList.take tag.toList.length)
    (arguments : List (List Char)) (left : List Char) :
    MissesUnless E (token tag) (applied word arguments ++ left) := by
  refine misses_lexeme (misses_wholeWord ?_)
  rw [applied, List.append_assoc]
  exact not_prefix_append h _

/-- A keyword is passed over in front of another one. -/
theorem misses_keyword
    (h : tag.toList.take word.toList.length ≠ word.toList.take tag.toList.length)
    (arguments : List (List Char)) (left : List Char) :
    MissesUnless E (tagged tag p) (applied word arguments ++ left) :=
  (misses_token h arguments left).bind

/-- A word is passed over where no lower case letter stands. -/
theorem misses_token_of_head (htag : tag.toList.head?.any Char.isLower = true)
    (h : ∀ c ∈ text.head?, c.isLower = false) : MissesUnless E (token tag) text := by
  refine misses_lexeme (misses_wholeWord ?_)
  rintro ⟨rest, rfl⟩
  rcases htext : tag.toList with _ | ⟨c, chars⟩
  · rw [htext] at htag
    exact absurd htag Bool.false_ne_true
  · rw [htext] at h htag
    exact absurd (htag.symm.trans (h c rfl)) (by decide)

theorem misses_keyword_of_head (htag : tag.toList.head?.any Char.isLower = true)
    (h : ∀ c ∈ text.head?, c.isLower = false) : MissesUnless E (tagged tag p) text :=
  (misses_token_of_head htag h).bind

end

/-- A keyword with one argument that ends in a line. -/
theorem applied_line (keyword : String) (chars left : List Char) :
    applied keyword [chars ++ ['\n']] ++ left =
      keyword.toList ++ '(' :: (chars ++ '\n' :: ')' :: left) := by
  simp only [applied, parenthesized, commaSeparated, List.flatMap_nil, List.append_nil,
    List.append_assoc, List.cons_append, List.nil_append]

/-- What is quoted opens with a dollar sign. -/
theorem opens_expression {e : Expression} (h : e.Written text) : Opens text := by
  cases h with
  | formula => exact ⟨'$', _, rfl, by decide⟩
  | term => exact ⟨'$', _, rfl, by decide⟩

theorem head?_expression {e : Expression} (h : e.Written text) (left : List Char) :
    (text ++ left).head? = some '$' := by
  cases h with
  | formula => rfl
  | term => rfl

/-- A quoted formula or term is read back from every text of it. -/
theorem readsBack_expression {e : Expression} (h : e.Written text) (hsub : signs ⊆ separators)
    (allowance : Nat) : ReadsBack signs (expression allowance) e text := by
  intro left hleft
  have hclear := hleft.significant hsub
  have hdollar : ∀ rest, ReadsUnless (· = .tooDeep) (character "$") ('$' :: rest) "$" rest :=
    reads_expect "character" "$"
  cases h with
  | term h =>
      rw [List.cons_append, applied_line]
      exact .labeled _ ((hdollar _).bind (.orElse (reads_tagged
        (reads_term_inside h allowance hclear))))
  | @formula language _ _ h =>
      -- The keyword of terms is no language.
      rw [List.cons_append]
      refine .labeled _ ((hdollar _).bind (.orElse_of_misses ?_ ?_))
      · refine misses_keyword ?_ _ _
        cases language <;> decide
      · rw [applied_line]
        exact (reads_language language _).bind ((reads_formula_inside h allowance hclear).map _)

section

variable {allowance : Nat} {item argument : Parser Info} {value : Info}

/-- What opens with no letter is none of the shapes that have a keyword. -/
theorem readsBack_infoRule_of_head (hhead : ∀ left, ∀ c ∈ (text ++ left).head?, c.isLower = false)
    (h : ReadsBack signs (Info.expression <$> expression allowance <|>
      generalApplication argument <|> Info.number <$> number <|>
      Info.infos <$> infoList item) value text) :
    ReadsBack signs (infoRule allowance item argument) value text := by
  have hmiss : ∀ {tag : String} {p : Parser Info}, tag.toList.head?.any Char.isLower = true →
      ∀ left, MissesUnless (· = .tooDeep) (tagged tag p) (text ++ left) :=
    fun htag left => misses_keyword_of_head htag (hhead left)
  -- Seven shapes have a keyword, and they are tried first.
  exact .labeled _ (.orElse_of_misses (hmiss (by decide)) <|
    .orElse_of_misses (hmiss (by decide)) <| .orElse_of_misses (hmiss (by decide)) <|
    .orElse_of_misses (hmiss (by decide)) <| .orElse_of_misses (hmiss (by decide)) <|
    .orElse_of_misses (hmiss (by decide)) <| .orElse_of_misses (hmiss (by decide)) h)

theorem misses_expression (h : text.head? ≠ some '$') :
    MissesUnless E (expression allowance) text := by
  refine .labeled _ (.bind (misses_expect ?_))
  rintro ⟨rest, rfl⟩
  exact h rfl

end

/-- No information is found in front of the end of a list. -/
theorem misses_info (allowance : Nat) (h : EndsIn [']'] left) :
    MissesUnless (· = .tooDeep) (info allowance) left := by
  have hhead : ∀ c ∈ left.head?, c = ']' := fun c hc => List.mem_singleton.mp (h c hc)
  have hmiss : ∀ {tag : String} {p : Parser Info}, tag.toList.head?.any Char.isLower = true →
      MissesUnless (· = .tooDeep) (tagged tag p) left :=
    fun htag => misses_keyword_of_head htag fun c hc => hhead c hc ▸ by decide
  cases allowance with
  | zero => exact .abort rfl
  | succ allowance =>
      have hexpression : MissesUnless (· = .tooDeep) (expression allowance) left :=
        misses_expression (h.head?_ne (by decide))
      have hatom : MissesUnless (· = .tooDeep) atom left :=
        misses_atom fun c hc => hhead c hc ▸ by decide
      have hnumber : MissesUnless (· = .tooDeep) number left :=
        misses_number fun c hc => hhead c hc ▸ by decide
      have hopening : MissesUnless (· = .tooDeep) (operator "[") left :=
        misses_operator (c := '[') rfl (h.head?_ne (by decide))
      have hlist : MissesUnless (· = .tooDeep) (infoList (info allowance)) left :=
        .labeled _ (.labeled _ (.labeled _ (.bind hopening)))
      exact .labeled _ (.orElse (hmiss (by decide)) <| .orElse (hmiss (by decide)) <|
        .orElse (hmiss (by decide)) <| .orElse (hmiss (by decide)) <|
        .orElse (hmiss (by decide)) <| .orElse (hmiss (by decide)) <|
        .orElse (hmiss (by decide)) <| .orElse hexpression.map <| .orElse hatom.bind <|
        .orElse hnumber.map hlist.map)

/-- A piece of information is read back from a text with every part of the allowance. -/
structure InfoReadsBack (i : Info) (text : List Char) : Prop where
  opens : Opens text
  reads (allowance : Nat) : ReadsBack separators (info allowance) i text

namespace InfoReadsBack

variable {i : Info}

theorem of_rule (hopens : Opens text) (h : ∀ allowance, ReadsBack separators
    (infoRule allowance (info allowance) (infoArgument allowance)) i text) :
    InfoReadsBack i text := by
  refine ⟨hopens, fun allowance => ?_⟩
  cases allowance with
  | zero => exact fun _ _ => .abort rfl
  | succ allowance => exact h allowance

/-- Without parentheses around it an argument is a piece of information. -/
theorem argument (h : InfoReadsBack i text) (allowance : Nat) :
    ReadsBack separators (infoArgument allowance) i text := by
  intro left hleft
  cases allowance with
  | zero => exact .abort rfl
  | succ allowance => exact reads_ifOpens_of_ne (h.opens.head?_ne left) (h.reads allowance hleft)

end InfoReadsBack

section

variable {pieces : List (Info × List Char)}
  (h : ∀ piece ∈ pieces, InfoReadsBack piece.1 piece.2)

include h

theorem readsBack_infoList (hsub : signs ⊆ separators) (allowance : Nat) :
    ReadsBack signs (infoList (info allowance)) (pieces.map Prod.fst)
      (bracketed (pieces.map Prod.snd)) := by
  refine .labeled _ (readsBack_bracketList (fun piece hpiece => ?_) (misses_info allowance) hsub)
  exact ⟨((h piece hpiece).reads allowance).mono (by decide), (h piece hpiece).opens⟩

theorem readsBack_infoArguments (hsub : signs ⊆ separators) (allowance : Nat) :
    ReadsBack signs (arguments (infoArgument allowance)) (pieces.map Prod.fst)
      (argumentList (pieces.map Prod.snd)) := by
  refine readsBack_arguments (fun piece hpiece => ?_) hsub
  exact ⟨((h piece hpiece).argument allowance).mono (by decide), (h piece hpiece).opens⟩

end

section

variable {a : Atom}

theorem readsBack_assumedUnits {names : List UnitName} (hne : names ≠ [])
    (h : ∀ name ∈ names, name.WellFormed) (hlimits : ∀ name ∈ names, name.InLimits)
    (hsub : signs ⊆ separators) :
    ReadsBack signs assumptions (.assumptions names)
      (bracketed (names.map UnitName.written)) := by
  have hitems : AreItems [']'] unitName (names.map fun name => (name, name.written)) :=
    areItems_map fun name hname =>
      ⟨readsBack_unitName (h name hname) (hlimits name hname) (by decide), opens_unitName name⟩
  have hlist : ReadsBack signs unitNames names (bracketed (names.map UnitName.written)) := by
    have hread := readsBack_bracketList1 hitems (mt List.map_eq_nil_iff.mp hne) hsub
    rw [map_fst_pairs, map_snd_pairs] at hread
    exact hread.labeled _
  intro left hleft
  refine (hlist hleft).bind ?_
  rw [Info.ofAssumptions, if_neg (mt List.isEmpty_iff.mp hne)]
  exact .pure _ _

theorem opens_bracketed (texts : List (List Char)) : Opens (bracketed texts) :=
  ⟨'[', _, rfl, by decide⟩

theorem readsBack_madeSymbols (h : a.WellFormed) {symbols : List Symbol}
    (hsymbols : ∀ s ∈ symbols, s.WellFormed) :
    ReadsBack [')'] newSymbols (.newSymbols a symbols)
      (a.written ++ ',' :: bracketed (symbols.map Symbol.written)) := by
  have hitems : AreItems [']'] (Symbol.var <$> var <|> Symbol.atom <$> atom)
      (symbols.map fun s => (s, s.written)) :=
    areItems_map fun s hs =>
      ⟨readsBack_symbol (hsymbols s hs) (by decide), opens_symbol (hsymbols s hs)⟩
  have hnil : ∀ {left}, EndsIn [']'] left →
      MissesUnless (· = .tooDeep) (Symbol.var <$> var <|> Symbol.atom <$> atom) left := by
    intro left hleft
    have hhead : ∀ c ∈ left.head?, c = ']' := fun c hc => List.mem_singleton.mp (hleft c hc)
    refine .orElse (.map (.labeled _ (.bind (misses_lexeme (misses_word _ fun c hc => ?_)))))
      (.map (misses_atom fun c hc => ?_))
    · exact hhead c hc ▸ by decide
    · exact hhead c hc ▸ by decide
  have hlist : ReadsBack [')'] (bracketList (Symbol.var <$> var <|> Symbol.atom <$> atom)) symbols
      (bracketed (symbols.map Symbol.written)) := by
    have hread : ReadsBack [')'] _ _ _ := readsBack_bracketList hitems hnil (by decide)
    rw [map_fst_pairs, map_snd_pairs] at hread
    exact hread
  have hatom : ReadsBack [','] atom a a.written := readsBack_atom h (by decide)
  exact hatom.bind_cons ((hlist.comma (opens_bracketed _)).map _) (List.mem_singleton.mpr rfl)

theorem readsBack_binding {v : Var} (hv : v.WellFormed) {e : Expression} (he : e.Written text)
    (allowance : Nat) :
    ReadsBack [')'] (binding allowance) (.bind v e) (v.text.toList ++ ',' :: text) := by
  have hvar : ReadsBack [','] var v v.text.toList := readsBack_var hv (by decide)
  have hvalue : ReadsBack [')'] (expression allowance) e text :=
    readsBack_expression he (by decide) allowance
  exact hvar.bind_cons ((hvalue.comma (opens_expression he)).map _) (List.mem_singleton.mpr rfl)

/-- A name with arguments is read back as an application. -/
theorem readsBack_generalApplication (h : a.WellFormed) {pieces : List (Info × List Char)}
    (hpieces : ∀ piece ∈ pieces, InfoReadsBack piece.1 piece.2) (hsub : signs ⊆ separators)
    (allowance : Nat) :
    ReadsBack signs (generalApplication (infoArgument allowance))
      (.application a (pieces.map Prod.fst)) (a.written ++ argumentList (pieces.map Prod.snd)) := by
  have hatom : ReadsBack stoppers atom a a.written := readsBack_atom h (List.Subset.refl _)
  refine hatom.bind ((readsBack_infoArguments hpieces hsub allowance).map _) fun hleft => ?_
  rcases pieces with _ | ⟨piece, pieces⟩
  · exact hleft.mono (List.Subset.trans hsub separators_subset)
  · exact endsIn_cons (by decide) _

end

/-- A keyword opens with a letter. -/
theorem opens_applied {keyword : String} (h : keyword.toList.head?.any Text.isWordChar = true)
    (texts : List (List Char)) : Opens (applied keyword texts) := by
  rw [applied]
  rcases htext : keyword.toList with _ | ⟨c, chars⟩
  · rw [htext] at h
    exact absurd h Bool.false_ne_true
  · rw [htext] at h
    exact ⟨c, _, rfl, by rw [show Text.isWordChar c = true from h, Bool.true_or]⟩

section

variable {a : Atom}

/-- What has a keyword is read back by the rule for this keyword, if the rules for the other
    keywords that are tried before are passed over. -/
theorem readsBack_description (h : a.WellFormed) :
    InfoReadsBack (.description a) (applied "description" [a.written]) := by
  refine .of_rule (opens_applied (by decide) _) fun allowance => .labeled _ (.orElse ?_)
  exact ((readsBack_atom h (by decide)).map _).applied (opens_atom a) (by decide)

theorem readsBack_iquote (h : a.WellFormed) :
    InfoReadsBack (.iquote a) (applied "iquote" [a.written]) := by
  refine .of_rule (opens_applied (by decide) _) fun allowance => .labeled _ ?_
  refine .orElse_of_misses (misses_keyword (by decide) _) <| .orElse ?_
  exact ((readsBack_atom h (by decide)).map _).applied (opens_atom a) (by decide)

theorem readsBack_status {word : Reserved Success} (h : word.WellFormed) :
    InfoReadsBack (.status word) (applied "status" [word.text.toList]) := by
  refine .of_rule (opens_applied (by decide) _) fun allowance => .labeled _ ?_
  refine .orElse_of_misses (misses_keyword (by decide) _) <|
    .orElse_of_misses (misses_keyword (by decide) _) <| .orElse ?_
  exact ((readsBack_reserved isLowerWord_success h (by decide)).map _).applied
    (opens_reserved isLowerWord_success h) (by decide)

theorem readsBack_assumptions {names : List UnitName} (hne : names ≠ [])
    (h : ∀ name ∈ names, name.WellFormed) (hlimits : ∀ name ∈ names, name.InLimits) :
    InfoReadsBack (.assumptions names)
      (applied "assumptions" [bracketed (names.map UnitName.written)]) := by
  refine .of_rule (opens_applied (by decide) _) fun allowance => .labeled _ ?_
  refine .orElse_of_misses (misses_keyword (by decide) _) <|
    .orElse_of_misses (misses_keyword (by decide) _) <|
    .orElse_of_misses (misses_keyword (by decide) _) <| .orElse ?_
  exact (readsBack_assumedUnits hne h hlimits (by decide)).applied (opens_bracketed _) (by decide)

theorem readsBack_refutation (h : a.WellFormed) :
    InfoReadsBack (.refutation a) (applied "refutation" [a.written]) := by
  refine .of_rule (opens_applied (by decide) _) fun allowance => .labeled _ ?_
  refine .orElse_of_misses (misses_keyword (by decide) _) <|
    .orElse_of_misses (misses_keyword (by decide) _) <|
    .orElse_of_misses (misses_keyword (by decide) _) <|
    .orElse_of_misses (misses_keyword (by decide) _) <| .orElse ?_
  exact ((readsBack_atom h (by decide)).map _).applied (opens_atom a) (by decide)

theorem readsBack_newSymbols (h : a.WellFormed) {symbols : List Symbol}
    (hsymbols : ∀ s ∈ symbols, s.WellFormed) :
    InfoReadsBack (.newSymbols a symbols)
      (applied "new_symbols" [a.written, bracketed (symbols.map Symbol.written)]) := by
  refine .of_rule (opens_applied (by decide) _) fun allowance => .labeled _ ?_
  refine .orElse_of_misses (misses_keyword (by decide) _) <|
    .orElse_of_misses (misses_keyword (by decide) _) <|
    .orElse_of_misses (misses_keyword (by decide) _) <|
    .orElse_of_misses (misses_keyword (by decide) _) <|
    .orElse_of_misses (misses_keyword (by decide) _) <| .orElse ?_
  exact (readsBack_madeSymbols h hsymbols).applied_pair (opens_atom a) (by decide)

theorem readsBack_bind {v : Var} (hv : v.WellFormed) {e : Expression} (he : e.Written text) :
    InfoReadsBack (.bind v e) (applied "bind" [v.text.toList, text]) := by
  refine .of_rule (opens_applied (by decide) _) fun allowance => .labeled _ ?_
  refine .orElse_of_misses (misses_keyword (by decide) _) <|
    .orElse_of_misses (misses_keyword (by decide) _) <|
    .orElse_of_misses (misses_keyword (by decide) _) <|
    .orElse_of_misses (misses_keyword (by decide) _) <|
    .orElse_of_misses (misses_keyword (by decide) _) <|
    .orElse_of_misses (misses_keyword (by decide) _) <| .orElse ?_
  exact (readsBack_binding hv he allowance).applied_pair (opens_var hv) (by decide)

/-- A dollar sign opens nothing but what is quoted. -/
theorem readsBack_quoted {e : Expression} (h : e.Written text) :
    InfoReadsBack (.expression e) text := by
  refine .of_rule (opens_expression h) fun allowance => readsBack_infoRule_of_head (fun left => ?_)
    (.orElse ((readsBack_expression h (List.Subset.refl _) allowance).map _))
  intro c hc
  rw [head?_expression h, Option.mem_some_iff] at hc
  exact hc ▸ by decide

/-- The quote of a name opens nothing but an application. -/
theorem readsBack_application (h : a.WellFormed) {pieces : List (Info × List Char)}
    (hpieces : ∀ piece ∈ pieces, InfoReadsBack piece.1 piece.2) :
    InfoReadsBack (.application a (pieces.map Prod.fst))
      (a.written ++ argumentList (pieces.map Prod.snd)) := by
  have hhead : ∀ left, (a.written ++ argumentList (pieces.map Prod.snd) ++ left).head? =
      some '\x27' := fun _ => rfl
  refine .of_rule ((opens_atom a).append _) fun allowance =>
    readsBack_infoRule_of_head (fun left c hc => ?_) ?_
  · rw [hhead, Option.mem_some_iff] at hc
    exact hc ▸ by decide
  · refine .orElse_of_misses (fun left => .map (misses_expression ?_)) (.orElse ?_)
    · rw [hhead]
      decide
    · exact readsBack_generalApplication h hpieces (List.Subset.refl _) allowance

/-- A digit or a sign opens nothing but a number. -/
theorem readsBack_numeric {n : Number} (h : n.WellFormed) (hlimits : n.InLimits) :
    InfoReadsBack (.number n) n.written := by
  have hhead := (opensNumber_written n).head?
  refine .of_rule (opensNumber_written n).opens fun allowance =>
    readsBack_infoRule_of_head (fun left c hc => (hhead left c hc).2.2) ?_
  refine .orElse_of_misses (fun left => .map (misses_expression fun hc => ?_)) <|
    .orElse_of_misses (fun left => .bind (misses_atom fun c hc => (hhead left c hc).2)) <|
    .orElse ((readsBack_number h hlimits separators_subset).map _)
  exact (hhead left '$' hc).1 rfl

/-- A bracket opens nothing but a list. -/
theorem readsBack_list {pieces : List (Info × List Char)}
    (hpieces : ∀ piece ∈ pieces, InfoReadsBack piece.1 piece.2) :
    InfoReadsBack (.infos (pieces.map Prod.fst)) (bracketed (pieces.map Prod.snd)) := by
  have hhead : ∀ left, ∀ c ∈ (bracketed (pieces.map Prod.snd) ++ left).head?, c = '[' :=
    fun left c hc => (Option.mem_some_iff.mp hc).symm
  refine .of_rule (opens_bracketed _) fun allowance =>
    readsBack_infoRule_of_head (fun left c hc => hhead left c hc ▸ by decide) ?_
  refine .orElse_of_misses (fun left => .map (misses_expression fun hc => ?_)) <|
    .orElse_of_misses (fun left => .bind (misses_atom fun c hc => hhead left c hc ▸ by decide)) <|
    .orElse_of_misses (fun left => .map (misses_number fun c hc => hhead left c hc ▸ by decide)) ?_
  · exact absurd (hhead left _ hc) (by decide)
  · exact (readsBack_infoList hpieces (List.Subset.refl _) allowance).map _

end

/-- Pieces of information are read back from their texts. -/
theorem readsBack_info {i : Info} (hwritten : i.Written text) (h : i.WellFormed) :
    InfoReadsBack i text := by
  -- The induction is on the text. Lists come with a text for each of their pieces, so the
  -- hypothesis is about every piece of a list with its own text.
  induction hwritten with
  | description =>
      cases h with
      | description h => exact readsBack_description h
  | iquote =>
      cases h with
      | iquote h => exact readsBack_iquote h
  | status =>
      cases h with
      | status h => exact readsBack_status h
  | assumptions hlimits =>
      cases h with
      | assumptions hne h => exact readsBack_assumptions hne h hlimits
  | newSymbols =>
      cases h with
      | newSymbols hname hsymbols => exact readsBack_newSymbols hname hsymbols
  | refutation =>
      cases h with
      | refutation h => exact readsBack_refutation h
  | expression he => exact readsBack_quoted he
  | bind _ he =>
      cases h with
      | bind hv _ => exact readsBack_bind hv he
  | application _ _ ih =>
      cases h with
      | application hname hinfos =>
          exact readsBack_application hname fun piece hpiece =>
            ih piece hpiece (hinfos _ (List.mem_map_of_mem hpiece))
  | number hlimits =>
      cases h with
      | number h => exact readsBack_numeric h hlimits
  | infos _ ih =>
      cases h with
      | infos h =>
          exact readsBack_list fun piece hpiece =>
            ih piece hpiece (h _ (List.mem_map_of_mem hpiece))

end Writing

end Tptp
