import Tptp.Proofs.Lexical.Number
import Tptp.Proofs.Lexical.Quoted

/-!
# Tokens

Texts as sequences of tokens.

The grammar of the language is a grammar over tokens. A token has one or more
spellings, and behind each token there may be layout. `Spells` relates a sequence of
tokens to a text in which it stands, together with what is left behind it. It is a
relation and not a scanner: a text can be cut into tokens in many ways, and it is
for the grammar to say which of them mean something.

## Main definitions

* `Token`, `Spelling`: Tokens and how they are written.
* `Spells`: A sequence of tokens stands in a text.
* `Spelled`: A relation on token sequences as one on texts.

## Theorems

* `spells_append`: Sequences are put together and taken apart.
* `Spelling.exists_cons`: What tokens open with.
* `Spells.exists_cons`, `Spells.head?_ne`: A text opens with what its first token opens with.
* `Spells.significant`, `Spells.head?_ne_arrowHead`: What stands in front of tokens.
-/

namespace Tptp

namespace Syntax

open Reading

/-- The signs that only hold other things together. -/
inductive Mark where
  | opening
  | closing
  | openingBracket
  | closingBracket
  | comma
  | colon
  | tilde
deriving DecidableEq

/-- The character of a mark. -/
def Mark.char : Mark → Char
  | .opening => '('
  | .closing => ')'
  | .openingBracket => '['
  | .closingBracket => ']'
  | .comma => ','
  | .colon => ':'
  | .tilde => '~'

/-- A token of the grammar of formulas. -/
inductive Token where
  | mark (mark : Mark)
  | sign (sign : Sign)
  | quantifier (quantifier : Quantifier)
  | connective (connective : Connective)
  | modality (modality : Modality)
  /-- A reserved word behind a dollar sign. -/
  | reserved (word : String)
  | atom (atom : Atom)
  | var (var : Var)
  | distinct (object : DistinctObject)
  | number (number : Number)

/-- The spellings of a token. -/
inductive Spelling : Token → List Char → Prop where
  | mark (m : Mark) : Spelling (.mark m) [m.char]
  | sign (s : Sign) : Spelling (.sign s) (Vocabulary.canonical s).toList
  | quantifier (q : Quantifier) : Spelling (.quantifier q) (Vocabulary.canonical q).toList
  | connective (c : Connective) : Spelling (.connective c) (Vocabulary.canonical c).toList
  | modality (m : Modality) : Spelling (.modality m) (Vocabulary.canonical m).toList
  | reserved {word : String} (h : Text.isLowerWord word.toList = true) :
      Spelling (.reserved word) ('$' :: word.toList)
  | word {a : Atom} (h : Text.isLowerWord a.text.toList = true) :
      Spelling (.atom a) a.text.toList
  | quotedAtom {a : Atom} {chars : List Char} (hne : a.text.isEmpty = false)
      (h : Text.Quoted.Spells '\x27' chars a.text.toList) : Spelling (.atom a) ('\x27' :: chars)
  | var {v : Var} (h : Text.isUpperWord v.text.toList = true) : Spelling (.var v) v.text.toList
  | distinct {d : DistinctObject} {chars : List Char}
      (h : Text.Quoted.Spells '"' chars d.text.toList) : Spelling (.distinct d) ('"' :: chars)
  | number {n : Number} {chars : List Char} (h : NumberSpelling chars n) :
      Spelling (.number n) chars

/-- A sequence of tokens stands at the start of a text, with layout behind each of
    them, and a text is left behind it. -/
inductive Spells : List Token → List Char → List Char → Prop where
  | nil (text : List Char) : Spells [] text text
  | cons {token : Token} {tokens : List Token} {spelling rest middle left : List Char}
      (h : Spelling token spelling) (hskips : Skips rest middle)
      (others : Spells tokens middle left) : Spells (token :: tokens) (spelling ++ rest) left

/-- A token sequence with a value stands at the start of a text. -/
def Spelled {α : Type} (D : List Token → α → Prop) (text : List Char) (value : α)
    (left : List Char) : Prop :=
  ∃ tokens, D tokens value ∧ Spells tokens text left

/-- Two sequences stand in a text if one stands behind the other. -/
theorem spells_append {front back : List Token} {text left : List Char} :
    Spells (front ++ back) text left ↔
      ∃ middle, Spells front text middle ∧ Spells back middle left := by
  constructor
  · intro h
    induction front generalizing text with
    | nil => exact ⟨text, .nil text, h⟩
    | cons token front ih =>
        cases h with
        | cons hspelling hskips hothers =>
            rcases ih hothers with ⟨middle, hfront, hback⟩
            exact ⟨middle, .cons hspelling hskips hfront, hback⟩
  · rintro ⟨middle, hfront, hback⟩
    induction hfront with
    | nil => exact hback
    | cons hspelling hskips _ ih => exact .cons hspelling hskips (ih hback)

/-- A sequence with a token in front stands in a text if the token does and the
    others stand behind it. -/
theorem spells_cons {token : Token} {tokens : List Token} {text left : List Char} :
    Spells (token :: tokens) text left ↔
      ∃ middle, Spells [token] text middle ∧ Spells tokens middle left :=
  @spells_append [token] tokens text left

/-- A single token stands in a text. -/
theorem spells_singleton {token : Token} {text left : List Char} :
    Spells [token] text left ↔
      ∃ spelling rest, text = spelling ++ rest ∧ Spelling token spelling ∧ Skips rest left := by
  constructor
  · intro h
    cases h with
    | cons hspelling hskips hothers =>
        cases hothers with
        | nil => exact ⟨_, _, rfl, hspelling, hskips⟩
  · rintro ⟨spelling, rest, rfl, hspelling, hskips⟩
    exact .cons hspelling hskips (.nil left)

/-- The characters that may open a token. -/
def Token.opens : Token → Char → Bool
  | .mark m, c => c == m.char
  | .sign _, c => c == '=' || c == '!'
  | .quantifier _, c => c == '!' || c == '?'
  | .connective _, c => c == '&' || c == '|' || c == '=' || c == '<' || c == '~'
  | .modality _, c => c == '#'
  | .reserved _, c => c == '$'
  | .atom _, c => c == '\x27' || c.isLower
  | .var _, c => c.isUpper
  | .distinct _, c => c == '"'
  | .number _, c => c.isDigit || c == '+' || c == '-'

/-- A spelling opens with a character that its token may open with. -/
theorem Spelling.exists_cons {token : Token} {spelling : List Char} (h : Spelling token spelling) :
    ∃ c rest, spelling = c :: rest ∧ token.opens c = true := by
  have hlower : ∀ {word}, Text.isLowerWord word = true → ∃ c rest, word = c :: rest ∧
      c.isLower = true := by
    intro word hword
    rcases word with _ | ⟨c, rest⟩
    · exact absurd hword Bool.false_ne_true
    · exact ⟨c, rest, rfl, (Bool.and_eq_true _ _ ▸ hword).1⟩
  cases h with
  | mark m => exact ⟨m.char, [], rfl, beq_self_eq_true _⟩
  | sign s => cases s <;> exact ⟨_, _, rfl, rfl⟩
  | quantifier q => cases q <;> exact ⟨_, _, rfl, rfl⟩
  | connective c => cases c <;> exact ⟨_, _, rfl, rfl⟩
  | modality m => cases m <;> exact ⟨_, _, rfl, rfl⟩
  | reserved => exact ⟨'$', _, rfl, rfl⟩
  | word h =>
      rcases hlower h with ⟨c, rest, hword, hc⟩
      refine ⟨c, rest, hword, ?_⟩
      rw [Token.opens, hc, Bool.or_true]
  | quotedAtom => exact ⟨'\x27', _, rfl, rfl⟩
  | @var v h =>
      rcases hv : v.text.toList with _ | ⟨c, rest⟩
      · exact absurd h (by rw [hv]; exact Bool.false_ne_true)
      · rw [hv] at h
        exact ⟨c, rest, rfl, (Bool.and_eq_true _ _ ▸ h).1⟩
  | distinct => exact ⟨'"', _, rfl, rfl⟩
  | number h => exact h.exists_cons

/-- A token in front of others opens the text. -/
theorem Spells.exists_cons {token : Token} {tokens : List Token} {text left : List Char}
    (h : Spells (token :: tokens) text left) :
    ∃ c rest, text = c :: rest ∧ token.opens c = true := by
  cases h with
  | cons hspelling _ _ =>
      rcases hspelling.exists_cons with ⟨c, rest, rfl, hc⟩
      exact ⟨c, _, rfl, hc⟩

/-- A text does not open with a character that its first token does not open with. -/
theorem Spells.head?_ne {token : Token} {tokens : List Token} {text left : List Char} {c : Char}
    (h : Spells (token :: tokens) text left) (hc : token.opens c = false) :
    text.head? ≠ some c := by
  rcases h.exists_cons with ⟨d, rest, rfl, hd⟩
  rintro ⟨⟩
  exact Bool.false_ne_true (hc.symm.trans hd)

/-- No token opens with a character that opens layout. -/
theorem Token.not_layout_of_opens {token : Token} {c : Char} (h : token.opens c = true) :
    Text.isBlank c = false ∧ c ≠ '%' ∧ c ≠ '/' := by
  have hword : Text.isWordChar c = true → Text.isBlank c = false ∧ c ≠ '%' ∧ c ≠ '/' := by
    intro hc
    refine ⟨Text.not_isBlank_of_isWordChar c hc, ?_, ?_⟩
    · rintro rfl
      exact absurd hc (by decide)
    · rintro rfl
      exact absurd hc (by decide)
  cases token with
  | mark m =>
      rw [beq_iff_eq.mp h]
      cases m <;> decide
  | sign | quantifier | connective | modality | reserved | distinct =>
      simp only [Token.opens, Bool.or_eq_true, beq_iff_eq, or_assoc] at h
      rcases h with rfl | rfl | rfl | rfl | rfl <;> decide
  | atom a =>
      simp only [Token.opens, Bool.or_eq_true, beq_iff_eq] at h
      rcases h with rfl | h
      · decide
      · exact hword (Text.isWordChar_of_isLower h)
  | var v => exact hword (Text.isWordChar_of_isUpper h)
  | number n =>
      simp only [Token.opens, Bool.or_eq_true, beq_iff_eq] at h
      rcases h with (h | rfl) | rfl
      · exact hword (Text.isWordChar_of_isDigit h)
      · decide
      · decide

/-- No token opens with an arrow head. -/
theorem Token.opens_arrowHead (token : Token) : token.opens '>' = false := by
  cases token with
  | mark m => cases m <;> decide
  | _ => rfl

/-- No arrow head stands in front of a sequence of tokens. -/
theorem Spells.head?_ne_arrowHead {tokens : List Token} {text left : List Char}
    (h : Spells tokens text left) (hleft : left.head? ≠ some '>') : text.head? ≠ some '>' := by
  cases tokens with
  | nil =>
      cases h
      exact hleft
  | cons token tokens => exact h.head?_ne token.opens_arrowHead

/-- No layout stands in front of a sequence of tokens. -/
theorem Spells.significant {tokens : List Token} {text left : List Char}
    (h : Spells tokens text left) (hleft : Significant left) : Significant text := by
  cases tokens with
  | nil =>
      cases h
      exact hleft
  | cons token tokens =>
      rcases h.exists_cons with ⟨c, rest, rfl, hc⟩
      rcases Token.not_layout_of_opens hc with ⟨hblank, hpercent, hslash⟩
      exact significant_cons hblank hpercent hslash

/-- A sequence of tokens is a part of the text. -/
theorem Spells.length_le {tokens : List Token} {text left : List Char}
    (h : Spells tokens text left) : left.length ≤ text.length := by
  induction h with
  | nil => exact Nat.le_refl _
  | cons _ hskips _ ih =>
      have hle := hskips.length_le
      rw [List.length_append]
      omega

/-- A sequence with a token in it takes a character. -/
theorem Spells.length_lt {token : Token} {tokens : List Token} {text left : List Char}
    (h : Spells (token :: tokens) text left) : left.length < text.length := by
  cases h with
  | cons hspelling hskips hothers =>
      rcases hspelling.exists_cons with ⟨c, rest, rfl, -⟩
      have hle := hskips.length_le
      have hlater := hothers.length_le
      rw [List.length_append, List.length_cons]
      omega

end Syntax

end Tptp
