/-!
# What Is Left of a Text

The state of reading: the part of the text that has not been read.

Reading only ever looks ahead, so the characters to come are all there is to
know about a place in a text, and what a parser makes of them cannot depend on
what stood before. Places are therefore measured from the end of the text. The
number of characters left is kept beside them, since an error has to name its
place and errors are made, and thrown away, all the time.

Reading stops at the end of the text, but a place may also be chosen, and then it
may lie behind the end. Nothing is left there, as at the end itself, and the
distance to the end is all that tells the two apart.

There is one way of moving on, `Rest.drop`.

## Main definitions

* `Rest`: The characters left, and how many they are.
* `Rest.ofPosition`: The place with a given number of characters before it.
* `Rest.left`: The place as a number, which falls as reading goes on.
* `Rest.drop`: What is left after some more characters.
* `Rest.startsWith`: The text to come starts with given characters.
* `Rest.span`: The characters to come that lie in a class.
* `Rest.skipWhile`: Moves on past them.

## Theorems

* `Rest.ext`: A place is determined by the characters left and by how far it is
  behind the end.
* `Rest.ofPosition_zero`, `Rest.ofPosition_of_le`, `Rest.drop_ofPosition`: Positions
  in a text as places.
* `Rest.size_drop`: Moving on leaves fewer characters.
* `Rest.chars_skipWhile`: Skipping a class leaves the text from the first
  character outside of it.
-/

namespace Tptp

namespace Reading

/-- The part of a text that has not been read. -/
structure Rest where
  /-- The characters left. -/
  chars : List Char
  /-- How many characters are left. -/
  size : Nat
  /-- How far the place is behind the end of the text. -/
  beyond : Nat
  /-- The characters are counted rightly. -/
  size_eq : size = chars.length
  /-- Nothing is left behind the end. -/
  beyond_eq : chars = [] ∨ beyond = 0

namespace Rest

/-- A whole text, of which nothing has been read. -/
def ofList (chars : List Char) : Rest :=
  ⟨chars, chars.length, 0, rfl, .inr rfl⟩

/-- The place in a text with a given number of characters before it, or as many
    as the text has and the remainder behind its end. -/
def ofPosition (text : List Char) (position : Nat) : Rest where
  chars := text.drop position
  size := text.length - position
  beyond := position - text.length
  size_eq := List.length_drop.symm
  beyond_eq := by
    rcases Nat.le_total text.length position with h | h
    · exact .inl (List.drop_eq_nil_of_le h)
    · exact .inr (Nat.sub_eq_zero_of_le h)

/-- The place as a number: how many characters are left, or behind the end, less
    than zero by the distance from it. -/
def left (rest : Rest) : Int :=
  rest.size - rest.beyond

/-- What is left after `n` more characters, or nothing if there are fewer. -/
def drop (n : Nat) (rest : Rest) : Rest where
  chars := rest.chars.drop n
  size := rest.size - n
  beyond := rest.beyond
  size_eq := by rw [rest.size_eq, List.length_drop]
  beyond_eq := rest.beyond_eq.imp (fun h => by rw [h, List.drop_nil]) id

/-- Nothing is left. -/
def atEnd (rest : Rest) : Bool :=
  rest.chars.isEmpty

/-- The text to come starts with the given characters. Behind the end it does not
    even start with none. -/
def startsWith (rest : Rest) (text : List Char) : Bool :=
  rest.beyond == 0 && text.isPrefixOf rest.chars

/-- The text to come starts with the given character. -/
def opensWith (rest : Rest) (c : Char) : Bool :=
  rest.chars.head? = some c

/-- The longest run of characters to come that lie in a class. -/
def span (p : Char → Bool) (rest : Rest) : List Char :=
  rest.chars.takeWhile p

/-- What is left after the longest run of characters that lie in a class. -/
def skipWhile (p : Char → Bool) (rest : Rest) : Rest :=
  rest.drop (rest.span p).length

/-- A place is determined by the characters left and by how far it is behind the
    end. -/
@[ext] theorem ext {a b : Rest} (h : a.chars = b.chars) (hb : a.beyond = b.beyond) : a = b := by
  obtain ⟨chars, size, beyond, hsize, _⟩ := a
  obtain ⟨chars', size', beyond', hsize', _⟩ := b
  simp only at h hb
  subst h hb hsize hsize'
  rfl

@[simp] theorem chars_ofList (chars : List Char) : (ofList chars).chars = chars := rfl

@[simp] theorem size_ofList (chars : List Char) : (ofList chars).size = chars.length := rfl

@[simp] theorem beyond_ofList (chars : List Char) : (ofList chars).beyond = 0 := rfl

@[simp] theorem chars_drop (n : Nat) (rest : Rest) :
    (rest.drop n).chars = rest.chars.drop n := rfl

/-- Moving on leaves fewer characters. -/
@[simp] theorem size_drop (n : Nat) (rest : Rest) : (rest.drop n).size = rest.size - n := rfl

@[simp] theorem beyond_drop (n : Nat) (rest : Rest) : (rest.drop n).beyond = rest.beyond := rfl

/-- Before any character the whole text is left. -/
theorem ofPosition_zero (text : List Char) : ofPosition text 0 = ofList text := by
  ext1
  · rfl
  · exact Nat.zero_sub text.length

/-- At a position in a text the remainder of it starts. -/
theorem ofPosition_of_le {text : List Char} {position : Nat} (h : position ≤ text.length) :
    ofPosition text position = ofList (text.drop position) :=
  ext rfl (Nat.sub_eq_zero_of_le h)

/-- Positions further on in a text. -/
theorem drop_ofPosition {text : List Char} {position n : Nat} (h : position + n ≤ text.length) :
    (ofPosition text position).drop n = ofPosition text (position + n) := by
  refine ext List.drop_drop ?_
  change position - text.length = position + n - text.length
  omega

/-- Moving on twice is moving on once. -/
theorem drop_drop (m n : Nat) (rest : Rest) : (rest.drop m).drop n = rest.drop (m + n) := by
  ext1
  · simp only [chars_drop, List.drop_drop]
  · rfl

/-- Skipping a class leaves the characters from the first one outside of it. -/
theorem chars_skipWhile (p : Char → Bool) (rest : Rest) :
    (rest.skipWhile p).chars = rest.chars.dropWhile p := by
  simp only [skipWhile, span, chars_drop]
  induction rest.chars with
  | nil => rfl
  | cons c chars ih =>
      by_cases h : p c = true
      · simp only [List.takeWhile_cons, h, if_true, List.length_cons, List.drop_succ_cons, ih,
          List.dropWhile_cons]
      · simp only [List.takeWhile_cons, h, Bool.false_eq_true, if_false, List.length_nil,
          List.drop_zero, List.dropWhile_cons]

/-- Skipping a class never leaves more. -/
theorem size_skipWhile_le (p : Char → Bool) (rest : Rest) :
    (rest.skipWhile p).size ≤ rest.size := by
  simp only [skipWhile, size_drop]
  omega

end Rest

end Reading

end Tptp
