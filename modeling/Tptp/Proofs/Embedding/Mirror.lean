import Tptp.Proofs.Embedding.Surplus
import Tptp.Proofs.InStep
import Tptp.Proofs.Locality.Primitive

/-!
# Texts Inside of Larger Ones

A text that stands by itself is read alike where it stands in a larger text.

In the larger text a line ends behind it, and then there is a closing parenthesis or
a comma, and more. The two runs of a parser stay in step. Only at the end they differ:
the one has come to the end of the text, and the other one to the sign behind it, which
it would take if it were inside of brackets. But what is left of the text has as many
closing brackets as are open, and at the end none is left, so none is open.

That is what the surplus is for. A place is sheltered if no bracket that is open there
stays open up to the end of the text.

## Main definitions

* `Embeds`: A text in a larger one.
* `Mirrors`: What is read of the larger text corresponds to what is read of the text.
* `Sheltered`: A place at which no more brackets are opened than closed.
* `MirroredAt`, `Mirrored`: A parser does the same in larger texts.

## Theorems

* `MirroredAt.bind`, `MirroredAt.orElse`, `Mirrored.many`: By combinators.
* `Sheltered.behind`: The place behind a parser in balance is as sheltered.
* `mirroredAt_expect`, `startsWith_of_embeds`: Signs.
-/

namespace Tptp

namespace Reading

variable {α β : Type} {close : Char} {later : List Char}

/-- The text at the start of a larger one, with the end of a line and a sign behind it.
    If there is nothing left of the text, the line may have been skipped. -/
inductive Embeds (close : Char) (later : List Char) : List Char → List Char → Prop where
  | line (text : List Char) : Embeds close later text (text ++ '\n' :: close :: later)
  | last : Embeds close later [] (close :: later)

/-- The second outcome is that of the first in a larger text. -/
abbrev Mirrors (close : Char) (later : List Char) : Outcome α → Outcome α → Prop :=
  InStep (Embeds close later)

/-- At this text the parser does the same as in every larger one. -/
abbrev MirroredAt (close : Char) (later : List Char) : Parser α → List Char → Prop :=
  InStepAt (Embeds close later)

/-- The brackets that are open at the start of the text are closed in it. There is such
    a bracket if the sign behind the text is one that is taken outside of brackets. -/
def Sheltered (close : Char) (commas : Bool) (text : List Char) : Prop :=
  ∃ k, surplus text = some k ∧ k ≤ 0 ∧ (close ∉ closers commas → k < 0)

/-- The sign is one that may stand behind a text. -/
def Closes (close : Char) : Prop :=
  close = ')' ∨ close = ','

/-- At the end of a text no bracket is open. -/
theorem Sheltered.mem_closers {commas : Bool} (h : Sheltered close commas []) :
    close ∈ closers commas := by
  rcases h with ⟨k, hk, -, hneg⟩
  rw [surplus_nil, Option.some.injEq] at hk
  by_contra hnot
  have hlt := hneg hnot
  omega

/-- A place with the same surplus is as sheltered. -/
theorem Sheltered.of_eq {commas : Bool} {text left : List Char} (h : Sheltered close commas text)
    (heq : surplus text = surplus left) : Sheltered close commas left := by
  rcases h with ⟨k, hk, hle⟩
  exact ⟨k, heq ▸ hk, hle⟩

/-- What is added behind a character of the text is behind what is left of it. -/
theorem Embeds.drop {text long : List Char} (h : Embeds close later text long) {n : Nat}
    (hn : n ≤ text.length) (hpos : 0 < n) : Embeds close later (text.drop n) (long.drop n) := by
  cases h with
  | line text =>
      rw [List.drop_append_of_le_length hn]
      exact .line _
  | last =>
      rw [List.length_nil] at hn
      omega

/-- At the end of the text there is a sign that no parser expects. -/
theorem Embeds.head?_nil {long : List Char} (h : Embeds close later [] long) :
    ∃ c ∈ ['\n', close], long.head? = some c := by
  cases h with
  | line => exact ⟨'\n', List.mem_cons_self, rfl⟩
  | last => exact ⟨close, List.mem_cons_of_mem _ List.mem_cons_self, rfl⟩

/-- From a character on the larger text goes on as the text does. -/
theorem Embeds.cons {c : Char} {text long : List Char} (h : Embeds close later (c :: text) long) :
    ∃ rest, long = c :: rest ∧ Embeds close later text rest := by
  cases h with
  | line => exact ⟨_, rfl, .line text⟩

/-- Of the larger text less is left exactly if less is left of the text, unless nothing
    is left of the text. -/
theorem Embeds.length_lt_iff {text long left behind : List Char}
    (h : Embeds close later text long) (h' : Embeds close later left behind) (hne : text ≠ []) :
    (Rest.ofList behind).size < (Rest.ofList long).size ↔
      (Rest.ofList left).size < (Rest.ofList text).size := by
  have hpos := List.length_pos_iff.mpr hne
  simp only [Rest.size_ofList]
  cases h with
  | last => exact absurd rfl hne
  | line =>
      cases h' with
      | line =>
          simp only [List.length_append, List.length_cons]
          omega
      | last =>
          simp only [List.length_append, List.length_cons, List.length_nil]
          omega

/-- The larger text is the text and another line, if there is anything left of it. -/
theorem Embeds.eq_append {text long : List Char} (h : Embeds close later text long)
    (hne : text ≠ []) : long = text ++ '\n' :: close :: later := by
  cases h with
  | line => rfl
  | last => exact absurd rfl hne

/-- What the next character decides is decided alike. -/
theorem Sheltered.look {commas : Bool} {γ : Type} {f : Option Char → γ} {text long : List Char}
    (h : Sheltered close commas text) (hlong : Embeds close later text long)
    (hend : ∀ c ∈ closers commas, f (some c) = f none) : f long.head? = f text.head? := by
  rcases text with _ | ⟨c, text⟩
  -- At the end of the text both signs that may stand behind it look like the end.
  · rcases hlong.head?_nil with ⟨c, hc, hhead⟩
    rw [hhead]
    refine hend c ?_
    rcases List.mem_cons.mp hc with rfl | hc
    · cases commas <;> decide
    · rw [List.mem_singleton.mp hc]
      exact h.mem_closers
  · rcases hlong.cons with ⟨rest, rfl, -⟩
    rfl

section

variable {commas : Bool} {p : Parser α}

/-- The parser does the same in larger texts from every sheltered place. -/
def Mirrored (close : Char) (later : List Char) (commas : Bool) (p : Parser α) : Prop :=
  ∀ ⦃text : List Char⦄, Sheltered close commas text → MirroredAt close later p text

/-- Where a parser in balance stops, the place is as sheltered as before. -/
theorem Sheltered.behind {text left : List Char} {value : α} (h : Sheltered close commas text)
    (hp : Balanced p) (hdone : (p (.ofList text)).outcome = .done value (.ofList left)) :
    Sheltered close commas left := by
  rcases hp.sound hdone with ⟨last, hlast, heq⟩
  rw [Rest.ofList_inj hlast] at *
  exact h.of_eq heq

theorem Mirrored.many (hbalanced : Balanced p) (hp : Mirrored close later commas p)
    (hend : Fails p (.ofList [])) :
    Mirrored close later commas (Parser.many p) := by
  refine fun _ htext => InStepAt.many hp (fun h => h.behind hbalanced)
    (fun {text _ _ _ _} hlong hdone hleft => hlong.length_lt_iff hleft ?_) htext
  -- At the end of the text no item is found, so as long as there is an item the text is not
  -- at its end and the two runs compare alike.
  rintro rfl
  rcases hend with ⟨failure, hfailed⟩
  rw [hfailed] at hdone
  exact absurd hdone (by simp only [reduceCtorEq, not_false_eq_true])

theorem Mirrored.repeatWhile (inSight : Option Char → Bool) (hnone : inSight none = false)
    (hend : ∀ c ∈ closers commas, inSight (some c) = false) (hbalanced : Balanced p)
    (hp : Mirrored close later commas p) :
    Mirrored close later commas
      (Parser.repeatWhile (fun rest => inSight rest.chars.head?) p) := by
  -- A closing sign does not start an item, and neither does the end of the text.
  refine fun _ htext => InStepAt.repeatWhile inSight
    (fun h hlong => h.look hlong fun c hc => (hend c hc).trans hnone.symm) hp
    (fun h => h.behind hbalanced)
    (fun {text _ _ _ _} hlong hseen _ hleft => hlong.length_lt_iff hleft ?_) htext
  rintro rfl
  rw [List.head?_nil, hnone] at hseen
  exact Bool.false_ne_true hseen

end

section

variable {text : List Char}

/-- A sign is found alike, if it stands in the text or not at its end. -/
theorem mirroredAt_expect {label sign : String} {test : Rest → List Char → Bool}
    (htest : ∀ {rest chars}, test rest chars = true → rest.startsWith chars = true)
    (hne : sign.toList ≠ [])
    (hsame : ∀ {long}, Embeds close later text long →
      test (.ofList long) sign.toList = test (.ofList text) sign.toList) :
    MirroredAt close later (Parser.expect label sign test) text := by
  intro long hlong
  rw [Parser.expect, Parser.expect, hsame hlong]
  split
  · next h =>
      have hstarts := htest h
      rw [Rest.startsWith_ofList_iff] at hstarts
      rw [Rest.drop_ofList, Rest.drop_ofList]
      exact .done (hlong.drop hstarts.length_le (List.length_pos_iff.mpr hne))
  · exact .failed _ _

/-- A sign does not stand in front of a text that opens with another character. -/
theorem startsWith_eq_false {sign : List Char} {c d : Char} (h : sign.head? = some c)
    {long : List Char} (hlong : long.head? = some d) (hne : c ≠ d) :
    (Rest.ofList long).startsWith sign = false := by
  rw [← Bool.not_eq_true, Rest.startsWith_ofList_iff]
  rintro ⟨rest, rfl⟩
  rw [List.head?_append, h, Option.some_or, Option.some.injEq] at hlong
  exact hne hlong

/-- A sign that neither ends lines nor closes texts stands in the larger text if it stands
    in the text. -/
theorem startsWith_of_embeds {sign : List Char} {c : Char} (hhead : sign.head? = some c)
    (hline : '\n' ∉ sign) (hclose : text ≠ [] ∨ c ≠ close) {long : List Char}
    (hlong : Embeds close later text long) :
    (Rest.ofList long).startsWith sign = (Rest.ofList text).startsWith sign := by
  by_cases hnil : text = []
  -- At the end of the text the sign is not found in either of them: the larger one goes on
  -- with the end of a line or with the closing sign.
  · have hmem : c ∈ sign := List.mem_of_mem_head? hhead
    rw [hnil] at hlong ⊢
    have hfalse : (Rest.ofList []).startsWith sign = false := by
      rw [← Bool.not_eq_true, Rest.startsWith_ofList_iff]
      intro hprefix
      rw [List.prefix_nil.mp hprefix] at hmem
      exact List.not_mem_nil hmem
    rcases hlong.head?_nil with ⟨d, hd, hlonghead⟩
    refine (startsWith_eq_false hhead hlonghead ?_).trans hfalse.symm
    rintro rfl
    rcases List.mem_cons.mp hd with rfl | hd
    · exact hline hmem
    · exact hclose.elim (fun hne => hne hnil) fun hne => hne (List.mem_singleton.mp hd)
  · rw [hlong.eq_append hnil, Rest.startsWith_ofList, Rest.startsWith_ofList,
      isPrefixOf_append hline rfl]

end

end Reading

end Tptp
