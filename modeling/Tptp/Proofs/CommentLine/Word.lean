import Tptp.Szs.Comment

/-!
# Words and Codes of a Comment Line

What the parts of an announcement are read from.

Spacing in front of a word or a code plays no part, however much there is of it, and what
stands behind it does so from its first other character on. A code goes as far as there
are letters, and the rest of its line must be the rest of the text.

## Theorems

* `afterWord?_append`, `afterWord?_eq_some_iff`: Words.
* `code?_append`, `code?_eq_some_iff`: Codes.
-/

namespace Tptp

namespace Szs

variable {word : String} {line left spaces : List Char}

/-- A line starts with something that is not spacing. -/
def Flush (line : List Char) : Prop :=
  ∀ c ∈ line.head?, isSpacing c = false

/-- Spacing is dropped up to where it ends. -/
theorem dropWhile_isSpacing (hspaces : spaces.all isSpacing = true) (hline : Flush line) :
    (spaces ++ line).dropWhile isSpacing = line := by
  rw [List.dropWhile_append_of_pos (List.all_eq_true.mp hspaces)]
  rcases line with _ | ⟨c, line⟩
  · rfl
  · rw [List.dropWhile_cons, hline c rfl, if_neg Bool.false_ne_true]

/-- Spacing in front of a word does not matter. -/
theorem afterWord?_cons {c : Char} (hc : isSpacing c = true) :
    afterWord? word (c :: line) = afterWord? word line := by
  rw [afterWord?, afterWord?, List.dropWhile_cons, if_pos hc]

/-- Spacing in front of a code does not matter. -/
theorem code?_cons {c : Char} (hc : isSpacing c = true) : code? (c :: line) = code? line := by
  rw [code?, code?, List.dropWhile_cons, if_pos hc]

/-- A word that does not start with spacing. -/
theorem flush_append (h : ∃ c chars, word.toList = c :: chars ∧ isSpacing c = false)
    (left : List Char) : Flush (word.toList ++ left) := by
  rcases h with ⟨c, chars, hword, hc⟩
  rw [hword]
  rintro d ⟨⟩
  exact hc

/-- Every line is spacing and something behind it. -/
theorem exists_flush (line : List Char) :
    ∃ spaces left, spaces.all isSpacing = true ∧ Flush left ∧ line = spaces ++ left := by
  refine ⟨line.takeWhile isSpacing, line.dropWhile isSpacing, List.all_takeWhile, fun c hc => ?_,
    List.takeWhile_append_dropWhile.symm⟩
  have hnot := List.head?_dropWhile_not isSpacing line
  rw [Option.mem_def.mp hc] at hnot
  exact hnot

/-- A word is passed over. -/
theorem afterWord?_append (hspaces : spaces.all isSpacing = true)
    (hword : Flush (word.toList ++ left)) :
    afterWord? word (spaces ++ (word.toList ++ left)) = some left := by
  rw [afterWord?, dropWhile_isSpacing hspaces hword]
  rw [if_pos (List.isPrefixOf_iff_prefix.mpr ⟨left, rfl⟩), List.drop_left]

/-- A word is found exactly where it stands behind spacing. -/
theorem afterWord?_eq_some_iff (hword : ∀ left, Flush (word.toList ++ left)) :
    afterWord? word line = some left ↔
      ∃ spaces, spaces.all isSpacing = true ∧ line = spaces ++ (word.toList ++ left) := by
  constructor
  · intro h
    rcases exists_flush line with ⟨spaces, middle, hspaces, hflush, rfl⟩
    rw [afterWord?, dropWhile_isSpacing hspaces hflush] at h
    split at h
    · next hprefix =>
        rcases List.isPrefixOf_iff_prefix.mp hprefix with ⟨rest, rfl⟩
        rw [List.drop_left, Option.some.injEq] at h
        exact ⟨spaces, hspaces, by rw [h]⟩
    · exact absurd h nofun
  · rintro ⟨spaces, hspaces, rfl⟩
    exact afterWord?_append hspaces (hword left)

/-- Letters, and behind them something else or nothing. -/
structure IsCode (code : String) (rest : List Char) : Prop where
  ne_nil : code.toList ≠ []
  letters : code.toList.all Char.isAlpha = true
  ends : ∀ c ∈ rest.head?, c.isAlpha = false

/-- A code is no spacing. -/
theorem IsCode.flush {code : String} {rest : List Char} (h : IsCode code rest) :
    Flush (code.toList ++ rest) := by
  rcases hcode : code.toList with _ | ⟨c, chars⟩
  · exact absurd hcode h.ne_nil
  · have hall := h.letters
    rw [hcode, List.all_cons, Bool.and_eq_true] at hall
    rintro d ⟨⟩
    refine Bool.eq_false_iff.mpr fun hspacing => ?_
    rw [isSpacing, Bool.or_eq_true, beq_iff_eq, beq_iff_eq] at hspacing
    rcases hspacing with rfl | rfl
    · exact absurd hall.1 (by decide)
    · exact absurd hall.1 (by decide)

/-- The code is as long as it can be. -/
theorem IsCode.takeWhile {code : String} {rest : List Char} (h : IsCode code rest) :
    (code.toList ++ rest).takeWhile Char.isAlpha = code.toList := by
  rw [List.takeWhile_append_of_pos (List.all_eq_true.mp h.letters)]
  rcases rest with _ | ⟨c, rest⟩
  · rw [List.takeWhile_nil, List.append_nil]
  · rw [List.takeWhile_cons, h.ends c rfl, if_neg Bool.false_ne_true, List.append_nil]

/-- A code is read unless there is another line behind it. -/
theorem code?_append {code : String} {rest : List Char} (hspaces : spaces.all isSpacing = true)
    (h : IsCode code rest) :
    code? (spaces ++ (code.toList ++ rest)) = if '\n' ∈ rest then none else some code := by
  rw [code?, dropWhile_isSpacing hspaces h.flush]
  rw [h.takeWhile, List.drop_left, String.ofList_toList,
    List.isEmpty_eq_false_iff.mpr h.ne_nil, Bool.false_or]
  simp only [List.contains_iff_mem]

/-- A code is found exactly where it stands behind spacing, with the rest of its line behind it
    and no other line. -/
theorem code?_eq_some_iff {code : String} :
    code? line = some code ↔ ∃ spaces rest, spaces.all isSpacing = true ∧
      line = spaces ++ (code.toList ++ rest) ∧ IsCode code rest ∧ '\n' ∉ rest := by
  constructor
  · intro h
    rcases exists_flush line with ⟨spaces, middle, hspaces, hflush, rfl⟩
    by_cases hnil : middle.takeWhile Char.isAlpha = []
    · rw [code?, dropWhile_isSpacing hspaces hflush, hnil] at h
      exact absurd h nofun
    · have hletters : IsCode (String.ofList (middle.takeWhile Char.isAlpha))
          (middle.dropWhile Char.isAlpha) := by
        refine ⟨?_, ?_, fun c hc => ?_⟩
        · rwa [String.toList_ofList]
        · rw [String.toList_ofList]
          exact List.all_takeWhile
        · have hnot := List.head?_dropWhile_not Char.isAlpha middle
          rw [Option.mem_def.mp hc] at hnot
          exact hnot
      have hmiddle : (String.ofList (middle.takeWhile Char.isAlpha)).toList ++
          middle.dropWhile Char.isAlpha = middle := by
        rw [String.toList_ofList, List.takeWhile_append_dropWhile]
      rw [← hmiddle, code?_append hspaces hletters] at h
      split at h
      · exact absurd h nofun
      · next hline =>
          rw [Option.some.injEq] at h
          exact ⟨spaces, _, hspaces, by rw [← h, hmiddle], h ▸ hletters, hline⟩
  · rintro ⟨spaces, rest, hspaces, rfl, hcode, hline⟩
    rw [code?_append hspaces hcode, if_neg hline]

end Szs

end Tptp
