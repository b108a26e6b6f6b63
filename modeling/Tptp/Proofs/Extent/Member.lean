import Tptp.Name
import Tptp.Proofs.Character
import Tptp.Proofs.Extent.Layout
import Tptp.Proofs.Lexical.Word
import Tptp.Vocabulary.Logic

/-!
# How Far Names of a Vocabulary Go

Looking for a member of a vocabulary at any position of a text.

Names may begin one another, and some of them end in a sign, behind which anything may
follow. A name that ends in a letter must not be cut out of a longer word. Of those that
stand at a position, in this sense, there is one that is longer than all others, and it is
the one that is found.

Where all the names are words there is a second way to find them, which is to read a word as
far as it goes and to look it up. Both come to the same. At most one name stands at a
position then, since the end of it is where the word ends.

## Main definitions

* `StandsAt`: A name stands at a position and goes no further as a word.
* `LongestAt`: No longer name stands there.

## Theorems

* `LongestAt.unique`: One member at most has the longest name.
* `named_cases`: What looking for a member comes to.
* `step_named_iff`, `step_lowerWord_iff`: Steps that look for a member, and that read a word.
* `named_exact`: Members at all positions, and words that are looked up.
-/

namespace Tptp

namespace Reading

variable {V : Type} [Vocabulary V] {v w : V} {text : List Char} {position : Nat}

/-- The name of a member stands at a position of a text. If it ends in a character of words,
    the text does not go on with another one. -/
def StandsAt (v : V) (text : List Char) (position : Nat) : Prop :=
  ∃ front left, text = front ++ ((Vocabulary.canonical v).toList ++ left) ∧
    front.length = position ∧
    ((Vocabulary.canonical v).toList.getLast?.any Text.isWordChar = true → WordEnds left)

/-- The name of a member stands at a position of a text, and no longer name does. -/
structure LongestAt (v : V) (text : List Char) (position : Nat) : Prop where
  stands : StandsAt v text position
  longest : ∀ w : V, StandsAt w text position →
    (Vocabulary.canonical w).length ≤ (Vocabulary.canonical v).length

/-- The place of a name is one of the text. -/
theorem StandsAt.position_le (h : StandsAt v text position) : position ≤ text.length := by
  rcases h with ⟨front, left, rfl, rfl, -⟩
  rw [List.length_append]
  exact Nat.le_add_right _ _

/-- A name stands at a position exactly if it stands at the start of what is left there. -/
theorem standsAt_iff (hle : position ≤ text.length) :
    StandsAt v text position ↔ Stands v (text.drop position) := by
  constructor
  · rintro ⟨front, left, rfl, rfl, hends⟩
    rw [List.drop_left]
    exact hasWord_of_wordEnds hends
  · intro h
    rcases h.starts with ⟨left, hleft⟩
    refine ⟨text.take position, left, ?_, List.length_take_of_le hle, ?_⟩
    · rw [hleft, List.take_append_drop]
    · rw [Stands, ← hleft] at h
      exact wordEnds_of_hasWord h

/-- One member at most has the longest name at a position. -/
theorem LongestAt.unique (hv : LongestAt v text position) (hw : LongestAt w text position) :
    v = w := by
  have hle := hv.stands.position_le
  exact ((standsAt_iff hle).mp hv.stands).eq_of_length ((standsAt_iff hle).mp hw.stands)
    (Nat.le_antisymm (hw.longest v hv.stands) (hv.longest w hw.stands))

/-- The place behind a name. -/
theorem StandsAt.ofPosition (h : StandsAt v text position) :
    ∃ left, Rest.ofPosition text position = .ofList ((Vocabulary.canonical v).toList ++ left) ∧
      Rest.ofPosition text (position + (Vocabulary.canonical v).length) = .ofList left ∧
      ((Vocabulary.canonical v).toList.getLast?.any Text.isWordChar = true → WordEnds left) := by
  have hle := h.position_le
  rcases h with ⟨front, left, rfl, rfl, hends⟩
  have hdrop : (front ++ ((Vocabulary.canonical v).toList ++ left)).drop front.length =
      (Vocabulary.canonical v).toList ++ left := List.drop_left
  refine ⟨left, ?_, ?_, hends⟩
  · rw [Rest.ofPosition_of_le hle, hdrop]
  · rw [← String.length_toList]
    exact Rest.ofPosition_add hle hdrop

/-- Behind the end of a text no name stands. -/
theorem hasWord_of_lt (hlt : text.length < position) (word : List Char) :
    (Rest.ofPosition text position).hasWord word = false := by
  have hbeyond : ((position - text.length : Nat) == 0) = false :=
    beq_eq_false_iff_ne.mpr (Nat.sub_ne_zero_of_lt hlt)
  rw [Rest.hasWord, Rest.startsWith]
  change (((position - text.length : Nat) == 0) && _ && _) = false
  rw [hbeyond, Bool.false_and, Bool.false_and]

/-- Looking for a member finds the one with the longest name, behind which it stops. If no name
    stands at the position, it fails there. -/
theorem named_cases (V : Type) [Vocabulary V] (text : List Char) (position : Nat) :
    (∃ v : V, LongestAt v text position ∧ Parser.named V (.ofPosition text position) =
      ⟨.done v (.ofPosition text (position + (Vocabulary.canonical v).length)), none⟩) ∨
    (∀ v : V, ¬ StandsAt v text position) ∧
      ∃ failure, positionOf text failure.left = position ∧
        Parser.named V (.ofPosition text position) = ⟨.failed failure, none⟩ := by
  have hfails : ∀ label, positionOf text (Failure.left ⟨(Rest.ofPosition text position).left,
      [label]⟩) = position := fun _ => positionOf_ofPosition text position
  rw [Parser.named]
  rcases Nat.lt_or_ge text.length position with hlt | hle
  · refine .inr ⟨fun v h => absurd h.position_le (Nat.not_le_of_lt hlt), ?_⟩
    split
    · next hfind =>
        have hfound := List.find?_some hfind
        exact absurd ((hasWord_of_lt hlt _).symm.trans hfound) Bool.false_ne_true
    · exact ⟨_, hfails _, rfl⟩
  · split
    · next name v hfind =>
        rw [Rest.ofPosition_of_le hle] at hfind
        rcases stands_of_find? hfind with ⟨rfl, hv⟩
        have hstands := (standsAt_iff hle).mpr hv
        rcases hstands.ofPosition with ⟨left, hplace, hbehind, -⟩
        refine .inl ⟨v, ⟨hstands, fun w hw => ?_⟩, ?_⟩
        · exact length_le_of_find? hfind ((standsAt_iff hle).mp hw)
        · rw [hplace, hbehind, Rest.drop_ofList, List.drop_left]
    · next hfind =>
        rw [Rest.ofPosition_of_le hle] at hfind
        refine .inr ⟨fun v h => ?_, _, hfails _, rfl⟩
        exact List.find?_eq_none.mp hfind _ (Vocabulary.mem_nameTable.mpr rfl)
          ((standsAt_iff hle).mp h)

/-- A name that is a word is read as a word where it stands. -/
theorem StandsAt.lowerWord (h : StandsAt v text position)
    (hword : Text.isLowerWord (Vocabulary.canonical v).toList = true) :
    Parser.lowerWord (.ofPosition text position) = ⟨.done (Vocabulary.canonical v)
      (.ofPosition text (position + (Vocabulary.canonical v).length)), none⟩ := by
  rcases h.ofPosition with ⟨left, hplace, hbehind, hends⟩
  rcases hname : (Vocabulary.canonical v).toList with _ | ⟨c, chars⟩
  · rw [hname] at hword
    exact absurd hword Bool.false_ne_true
  rw [hname, Text.isLowerWord, Bool.and_eq_true] at hword
  rw [hplace, hbehind]
  refine word_of_wordEnds _ hname hword.1 hword.2 (hends ?_)
  -- The last character of a word is one of words.
  rw [hname, List.getLast?_eq_some_getLast (List.cons_ne_nil c chars), Option.any_some]
  refine List.all_eq_true.mp ?_ _ (List.getLast_mem (List.cons_ne_nil c chars))
  rw [List.all_cons, Text.isWordChar_of_isLower hword.1, hword.2, Bool.and_self]

/-- Where a name is read as a word it stands. -/
theorem standsAt_of_lowerWord {after : Rest}
    (h : (Parser.lowerWord (.ofPosition text position)).outcome =
      .done (Vocabulary.canonical v) after) : StandsAt v text position := by
  rcases Nat.lt_or_ge text.length position with hlt | hle
  · -- Behind the end nothing is left that could be a word.
    have hnil : (Rest.ofPosition text position).chars = [] :=
      List.drop_eq_nil_of_le (Nat.le_of_lt hlt)
    rw [Parser.lowerWord, Parser.word, hnil] at h
    cases h
  · rw [Rest.ofPosition_of_le hle] at h
    rcases (relates_word _ _).sound h with ⟨left, -, c, chars, htext, hvalue, -, -, hends⟩
    refine ⟨text.take position, left, ?_, List.length_take_of_le hle, fun _ => hends⟩
    rw [hvalue, List.cons_append, ← htext, List.take_append_drop]

/-- Where all names are words, no two of them stand at one position. -/
theorem StandsAt.longestAt (hwords : ∀ v : V, Text.isLowerWord (Vocabulary.canonical v).toList = true)
    (h : StandsAt v text position) : LongestAt v text position := by
  refine ⟨h, fun w hw => ?_⟩
  have hsame := (h.lowerWord (hwords v)).symm.trans (hw.lowerWord (hwords w))
  exact Nat.le_of_eq (congrArg String.length (Outcome.done.inj (congrArg Result.outcome hsame)).1.symm)

variable {after : Rest} {furthest : Option Failure} {next : Session}

/-- A step that looks for a member finds the one with the longest name and stops behind it. -/
theorem step_named_iff :
    Session.step (Parser.lift (Parser.named V)) ⟨text, .ofPosition text position, furthest⟩ =
        (.done v after, next) ↔
      LongestAt v text position ∧
        after = .ofPosition text (position + (Vocabulary.canonical v).length) ∧
        next = ⟨text, .ofPosition text (position + (Vocabulary.canonical v).length), furthest⟩ := by
  rcases named_cases V text position with ⟨w, hw, happly⟩ | ⟨hnone, failure, -, happly⟩
  · rw [Session.step_of_done happly]
    constructor
    · intro h
      cases h
      exact ⟨hw, rfl, rfl⟩
    · rintro ⟨hv, rfl, rfl⟩
      rw [hv.unique hw]
  · rw [Session.step_of_failed happly]
    constructor
    · intro h
      cases h
    · rintro ⟨hv, -⟩
      exact absurd hv.stands (hnone v)

/-- A step that reads a word comes to a name that is one exactly where the name stands. -/
theorem step_lowerWord_iff (hword : Text.isLowerWord (Vocabulary.canonical v).toList = true) :
    Session.step (Parser.lift Parser.lowerWord) ⟨text, .ofPosition text position, furthest⟩ =
        (.done (Vocabulary.canonical v) after, next) ↔
      StandsAt v text position ∧
        after = .ofPosition text (position + (Vocabulary.canonical v).length) ∧
        next = ⟨text, .ofPosition text (position + (Vocabulary.canonical v).length), furthest⟩ := by
  constructor
  · intro h
    have houtcome := (Session.step_lift _ _).symm.trans (congrArg Prod.fst h)
    have hstands := standsAt_of_lowerWord houtcome
    rw [Session.step_of_done (hstands.lowerWord hword)] at h
    cases h
    exact ⟨hstands, rfl, rfl⟩
  · rintro ⟨hstands, rfl, rfl⟩
    exact Session.step_of_done (hstands.lowerWord hword)

/-- At every position of every text, a step that looks for a member of a vocabulary finds a member
    exactly if its name stands there, is not cut out of a longer word, and is the longest name
    that does. The step stops behind the name, and if there is none it fails where it is. If all
    names of the vocabulary are words that start with a lower case letter, finding a member is
    the same as reading such a word and looking it up, and as reading it as a reserved word that
    is standard: with the same member, the same end and the same record of failures. -/
theorem named_exact (V : Type) [Vocabulary V] (text : List Char) (position : Nat)
    (furthest : Option Failure) :
    (∀ (v : V) after next,
      Session.step (Parser.lift (Parser.named V)) ⟨text, .ofPosition text position, furthest⟩ =
          (.done v after, next) ↔
        LongestAt v text position ∧
          after = .ofPosition text (position + (Vocabulary.canonical v).length) ∧
          next = ⟨text, .ofPosition text (position + (Vocabulary.canonical v).length), furthest⟩) ∧
    ((∀ v : V, ¬ LongestAt v text position) →
      ∃ failure, positionOf text failure.left = position ∧
        Session.step (Parser.lift (Parser.named V)) ⟨text, .ofPosition text position, furthest⟩ =
          (.failed failure,
            ⟨text, .ofPosition text position, Failure.later furthest (some failure)⟩)) ∧
    ((∀ v : V, Text.isLowerWord (Vocabulary.canonical v).toList = true) →
      ∀ (v : V) after next,
        (Session.step (Parser.lift (Parser.named V)) ⟨text, .ofPosition text position, furthest⟩ =
            (.done v after, next) ↔
          ∃ word, Session.step (Parser.lift Parser.lowerWord)
              ⟨text, .ofPosition text position, furthest⟩ = (.done word after, next) ∧
            Vocabulary.ofCanonical? word = some v) ∧
        (Session.step (Parser.lift (Parser.named V)) ⟨text, .ofPosition text position, furthest⟩ =
            (.done v after, next) ↔
          ∃ word, Session.step (Parser.lift Parser.lowerWord)
              ⟨text, .ofPosition text position, furthest⟩ = (.done word after, next) ∧
            Reserved.ofWord word = .standard v)) := by
  refine ⟨fun v after next => step_named_iff, fun hnone => ?_, fun hwords v after next => ?_⟩
  · rcases named_cases V text position with ⟨v, hv, -⟩ | ⟨-, failure, hposition, happly⟩
    · exact absurd hv (hnone v)
    · exact ⟨failure, hposition, Session.step_of_failed happly⟩
  · have hlookup : Session.step (Parser.lift (Parser.named V))
          ⟨text, .ofPosition text position, furthest⟩ = (.done v after, next) ↔
        ∃ word, Session.step (Parser.lift Parser.lowerWord)
            ⟨text, .ofPosition text position, furthest⟩ = (.done word after, next) ∧
          Vocabulary.ofCanonical? word = some v := by
      constructor
      · intro h
        rcases step_named_iff.mp h with ⟨hv, hplace⟩
        exact ⟨Vocabulary.canonical v, (step_lowerWord_iff (hwords v)).mpr ⟨hv.stands, hplace⟩,
          Vocabulary.ofCanonical?_canonical v⟩
      · rintro ⟨word, hword, hv⟩
        rw [← Vocabulary.ofCanonical?_eq_some_iff.mp hv] at hword
        rcases (step_lowerWord_iff (hwords v)).mp hword with ⟨hstands, hplace⟩
        exact step_named_iff.mpr ⟨hstands.longestAt hwords, hplace⟩
    simp only [Reserved.ofWord_eq_standard_iff]
    exact ⟨hlookup, hlookup⟩

/-- A name that begins with another one, behind a dollar sign. -/
theorem named_of_longerName :
    (∀ v : DefinedFunction, Text.isLowerWord (Vocabulary.canonical v).toList = true) ∧
    ∃ word, Session.step (Parser.lift Parser.lowerWord)
        ⟨"$quotient_e(X)".toList, .ofPosition "$quotient_e(X)".toList 1, none⟩ =
          (.done word (.ofPosition "$quotient_e(X)".toList 11),
            ⟨"$quotient_e(X)".toList, .ofPosition "$quotient_e(X)".toList 11, none⟩) ∧
      Vocabulary.ofCanonical? word = some DefinedFunction.quotientE := by
  have hwords : ∀ v : DefinedFunction,
      Text.isLowerWord (Vocabulary.canonical v).toList = true := by
    intro v
    cases v <;> decide
  have hstands : StandsAt DefinedFunction.quotientE "$quotient_e(X)".toList 1 :=
    ⟨['$'], "(X)".toList, rfl, rfl, fun _ c hc => by cases hc; rfl⟩
  have hexact := named_exact DefinedFunction "$quotient_e(X)".toList 1 none
  exact ⟨hwords, (hexact.2.2 hwords _ _ _).1.mp
    ((hexact.1 _ _ _).mpr ⟨hstands.longestAt hwords, rfl, rfl⟩)⟩

end Reading

end Tptp
