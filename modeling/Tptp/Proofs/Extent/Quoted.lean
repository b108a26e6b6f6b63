import Tptp.Proofs.Writing.Token
import Tptp.Proofs.Yields.Document

/-!
# How Far Quoted Texts Go

Reading a quoted text at any position of a text.

A quoted text is a quote, items and a quote. A backslash makes one item with the character
behind it if that is a quote or a backslash, and else it is an item of its own. So where the
items end does not depend on what follows the closing quote, and where there is none, no
part of the text is taken: the failure is at the opening quote, however many items stand
behind it.

A text that is written with every quote and every backslash escaped has a closing quote that
is the first one behind an item, so it is read back, and so are atoms and distinct objects.

## Theorems

* `quoted_of_not_spells`: Without items and a closing quote there is a failure.
* `quoted_encode`: Quoted texts read back.
* `atom_encode_iff`, `distinctObject_encode_iff`: Atoms and distinct objects read back.
* `quoted_exact`: Quoted texts at all positions.
-/

namespace Tptp

namespace Reading

open Text Quoted

/-- Without an opening quote, items and a closing quote, the failure is where the quoted text
    would start. -/
theorem quoted_of_not_spells {quote : Char} {rest : Rest}
    (h : ∀ chars left value, rest.chars = quote :: (chars ++ left) → ¬ Spells quote chars value) :
    ∃ label, Parser.quoted quote rest = ⟨.failed ⟨rest.left, [label]⟩, none⟩ := by
  rw [Parser.quoted]
  split
  · next hopens =>
      rw [Rest.opensWith, decide_eq_true_eq] at hopens
      rcases List.head?_eq_some_iff.mp hopens with ⟨tail, htail⟩
      split
      · next value extent hdecode =>
          rw [htail, List.tail_cons] at hdecode
          rcases spells_of_decode hdecode with ⟨chars, left, rfl, hspells, -⟩
          exact absurd hspells (h chars left value htail)
      · exact ⟨_, rfl⟩
  · exact ⟨_, rfl⟩

/-- A text written between quotes is read back, wherever it stands. -/
theorem quoted_encode {quote : Char} (hq : quote ≠ '\\') (front left : List Char)
    {value : List Char} (hvalue : ∀ c ∈ value, isPrintable c = true) :
    Parser.quoted quote (.ofPosition (front ++ (encode quote value ++ left)) front.length) =
      ⟨.done (String.ofList value)
        (.ofPosition (front ++ (encode quote value ++ left))
          (front.length + (encode quote value).length)), none⟩ := by
  have hrest : (Rest.ofPosition (front ++ (encode quote value ++ left)) front.length).chars =
      quote :: (escape quote value ++ [quote] ++ left) := List.drop_left
  rw [quoted_of_spells hq (spells_escape quote hvalue) hrest, Rest.drop_ofPosition, encode,
    List.length_cons]
  simp only [encode, List.length_append, List.length_cons]
  omega

/-- Nothing has to be skipped before a text that is given by its characters. -/
theorem Skips.ofList (chars : List Char) : Skips (String.ofList chars).toList chars := by
  rw [String.toList_ofList]
  exact .nil chars

/-- The text of an atom between quotes is read back, and no other text between quotes is. -/
theorem atom_encode_iff (text : String) :
    Read.atom (String.ofList (encode '\x27' text.toList)) = .ok ⟨text⟩ ↔
      Atom.isValid text = true := by
  refine ⟨(read_yields Grammar.yields_atom _).1 ⟨text⟩, fun h => ?_⟩
  have hspells : Syntax.Spells [.atom ⟨text⟩] (encode '\x27' text.toList) [] :=
    Syntax.spells_singleton.mpr
      ⟨_, [], (List.append_nil _).symm, Writing.spelling_written (a := ⟨text⟩) h, .nil []⟩
  refine read_ok_of_reads (Skips.ofList (encode '\x27' text.toList)) ?_
    (Syntax.reads_atom hspells ?_)
  · exact significant_cons (by decide) (by decide) (by decide)
  · exact ⟨fun c h => absurd h (Option.not_mem_none c), significant_nil⟩

/-- The text of a distinct object between quotes is read back, and no other text between quotes
    is. -/
theorem distinctObject_encode_iff (text : String) :
    Read.distinctObject (String.ofList (encode '"' text.toList)) = .ok ⟨text⟩ ↔
      DistinctObject.isValid text = true := by
  refine ⟨(read_yields Grammar.yields_distinctObject _).1 ⟨text⟩, fun h => ?_⟩
  have hspells : Syntax.Spells [.distinct ⟨text⟩] (encode '"' text.toList) [] :=
    Syntax.spells_singleton.mpr ⟨_, [], (List.append_nil _).symm,
      .distinct (spells_escape '"' (List.all_eq_true.mp h)), .nil []⟩
  refine read_ok_of_reads (Skips.ofList (encode '"' text.toList)) ?_
    (Syntax.reads_distinctObject hspells ?_)
  · exact significant_cons (by decide) (by decide) (by decide)
  · exact fun c h => absurd h (Option.not_mem_none c)

/-- At every position of every text, a step that looks for a quoted text matches exactly if there
    is a quote with items and a closing quote behind it. Its value is what the items denote, and
    the step ends behind the closing quote. Else it fails, leaves the place as it is, and the
    failure that goes on record is at that place. So a printable text that is written between
    quotes, with all quotes and backslashes in it escaped, is read back wherever it stands, and
    whatever follows; and the texts that are read back as the atoms and the distinct objects they
    were written for are the valid names of those. -/
theorem quoted_exact {quote : Char} (hquote : quote = '\x27' ∨ quote = '"') :
    (∀ text position furthest,
      (∃ chars left value, text.drop position = quote :: (chars ++ left) ∧
        Spells quote chars value ∧
        Session.step (Parser.lift (Parser.quoted quote))
            ⟨text, .ofPosition text position, furthest⟩ =
          (.done (String.ofList value) (.ofPosition text (position + 1 + chars.length)),
            ⟨text, .ofPosition text (position + 1 + chars.length), furthest⟩)) ∨
      ((∀ chars left value, text.drop position = quote :: (chars ++ left) →
          ¬ Spells quote chars value) ∧
        ∃ failure, positionOf text failure.left = position ∧
          Session.step (Parser.lift (Parser.quoted quote))
              ⟨text, .ofPosition text position, furthest⟩ =
            (.failed failure,
              ⟨text, .ofPosition text position, Failure.later furthest (some failure)⟩))) ∧
    (∀ front value left, (∀ c ∈ value, isPrintable c = true) →
      Parser.quoted quote (.ofPosition (front ++ (encode quote value ++ left)) front.length) =
        ⟨.done (String.ofList value)
          (.ofPosition (front ++ (encode quote value ++ left))
            (front.length + (encode quote value).length)), none⟩) ∧
    (∀ text, Read.atom (String.ofList (encode '\x27' text.toList)) = .ok ⟨text⟩ ↔
      Atom.isValid text = true) ∧
    ∀ text, Read.distinctObject (String.ofList (encode '"' text.toList)) = .ok ⟨text⟩ ↔
      DistinctObject.isValid text = true := by
  have hq : quote ≠ '\\' := by
    rcases hquote with rfl | rfl <;> decide
  refine ⟨fun text position furthest => ?_, fun front value left => quoted_encode hq front left,
    atom_encode_iff, distinctObject_encode_iff⟩
  by_cases h : ∃ chars left value, text.drop position = quote :: (chars ++ left) ∧
      Spells quote chars value
  · rcases h with ⟨chars, left, value, htext, hspells⟩
    have hlength := congrArg List.length htext
    rw [List.length_drop, List.length_cons, List.length_append] at hlength
    have hbehind : (Rest.ofPosition text position).drop (chars.length + 1) =
        .ofPosition text (position + 1 + chars.length) := by
      rw [Rest.drop_ofPosition (by omega), Nat.add_assoc, Nat.add_comm 1]
    refine .inl ⟨chars, left, value, htext, hspells, Session.step_of_done ?_⟩
    exact hbehind ▸ quoted_of_spells hq hspells htext
  · have hnone : ∀ chars left value, text.drop position = quote :: (chars ++ left) →
        ¬ Spells quote chars value :=
      fun chars left value htext hspells => h ⟨chars, left, value, htext, hspells⟩
    have hfails : ∃ label, Parser.quoted quote (.ofPosition text position) =
        ⟨.failed ⟨(Rest.ofPosition text position).left, [label]⟩, none⟩ :=
      quoted_of_not_spells hnone
    rcases hfails with ⟨label, hfails⟩
    exact .inr ⟨hnone, _, positionOf_ofPosition text position, Session.step_of_failed hfails⟩

/-- A quote and a backslash between quotes, inside other text. -/
theorem quoted_of_backslash : ('\x27' = '\x27' ∨ '\x27' = '"') ∧
    (∀ c ∈ ['a', '\\', '\x27'], isPrintable c = true) ∧
    Parser.quoted '\x27'
        (.ofPosition "p('a\\\\\\'')".toList 2) =
      ⟨.done "a\\'" (.ofPosition "p('a\\\\\\'')".toList 9), none⟩ := by
  have hprintable : ∀ c ∈ ['a', '\\', '\x27'], isPrintable c = true :=
    List.all_eq_true.mp (by decide)
  exact ⟨.inl rfl, hprintable,
    (quoted_exact (.inl rfl)).2.1 ['p', '('] ['a', '\\', '\x27'] [')'] hprintable⟩

end Reading

end Tptp
