import Tptp.Proofs.Progress.Step
import Tptp.Proofs.Syntax.Signature

/-!
# What Types Are Read From

A type is read from nothing but its texts.

That the texts of a type are read as this type is one half of the matter, and here is the other
one: where a type is read, one of its texts stands. The productions are gone through one by one.
What they read stands in the relation of the texts, with a depth that the allowance gives.

A production that reads argument sorts with an arrow behind them does not know the result. What
it reads is said by what it is good for: with a result behind it, it is a mapping (`FrontOf`).
The quantifier of a type is dealt with in the same way.

The relation counts the layers of several sorts in parentheses one deeper than the production
does. So the texts are found one deeper than they were read, which is no loss, since what is
nested no deeper than a number is nested no deeper than the next one (`Grows`).

## Main definitions

* `Grows`: A relation with room for more layers has all that it had.
* `FrontOf`: What is in front of something so that both are one.

## Theorems

* `relates_wholeWord`, `relates_inParens`, `relates_wrapped`: Words and parentheses.
* `relates_polySort`, `relates_mapping`, `relates_typeQuantifier`: Sorts, mappings, quantifiers.
* `relates_signature`: Types.
-/

namespace Tptp

namespace Syntax

open Reading Parser Grammar

/-- What is nested no deeper than a number is nested no deeper than the next one. -/
def Grows {α : Type} (R : Nat → List Char → α → List Char → Prop) : Prop :=
  ∀ {depth text value left}, R depth text value left → R (depth + 1) text value left

/-- With something behind it, the two of them are one in the sense of a relation. -/
def FrontOf {α β γ : Type} (pair : α → β → γ) (S : List Char → β → List Char → Prop)
    (T : List Char → γ → List Char → Prop) (text : List Char) (a : α) (middle : List Char) : Prop :=
  ∀ {b left}, S middle b left → T text (pair a b) left

section

variable {α : Type} {p bare others : Parser α} {q : Nat → Parser α} {sign : String}
  {A B : List Char → α → List Char → Prop} {R : Nat → List Char → α → List Char → Prop}
  {depth n : Nat} {text left : List Char} {value : α} {values : List α}

/-- A whole word is read from where it stands. -/
theorem relates_wholeWord (word : String) :
    Relates (token word) fun text _ left => SignAt word text left := by
  refine (relates_lexeme (relates_expect startsWith_of_hasWord)).mono ?_
  rintro text value left ⟨middle, ⟨-, rfl⟩, hskips, -⟩
  exact ⟨middle, rfl, hskips⟩

theorem relates_behind (sign : String) (h : Relates p A) :
    Relates (operator sign >>= fun _ => p) (Behind sign A) := by
  refine ((relates_sign sign).bind fun _ => h).mono ?_
  rintro text value left ⟨_, middle, hsign, hitem⟩
  exact ⟨middle, hsign, hitem⟩

theorem relates_inParens (h : Relates p A) : Relates (parens p) (InParens A) := by
  refine (((relates_sign "(").bind fun _ => h.bind fun value =>
    (relates_sign ")").bind fun _ => .pure value).labeled _).mono ?_
  rintro text value left ⟨_, inner, hopening, _, middle, hitem, _, _, hclosing, rfl, rfl⟩
  exact ⟨inner, middle, hopening, hitem, hclosing⟩

theorem relates_orParens (hbare : Relates bare A) (hothers : Relates others B) :
    Relates (orParens bare others) fun text value left =>
      A text value left ∨ InParens B text value left := by
  have hleft := hbare.mono fun text value left h => Or.inl (b := InParens B text value left) h
  have hright := (relates_inParens hothers).mono fun text value left h =>
    Or.inr (a := A text value left) h
  exact .ifOpens _ (hleft.orElse hright) hleft

/-- In redundant parentheses stands what stands without them. -/
theorem relates_wrapped (h : ∀ n, Relates (q n) (R n)) (n : Nat) :
    Relates (optionalParens q n) (Wrapped R n) := by
  induction n with
  | zero => exact .abort _
  | succ n ih => exact relates_orParens (h n) ih

/-- Items with a sign between them. -/
theorem relates_separated (sign : String) (h : Relates p A) :
    Relates (sepBy1 p (operator sign)) fun text values left => ∃ first others middle,
      values = first :: others ∧ A text first middle ∧ Steps (Behind sign A) middle others left := by
  refine (h.bind fun first => (relates_behind sign h).many.bind fun others =>
    .pure (first :: others)).mono ?_
  rintro text values left ⟨first, middle, hfirst, others, _, hothers, rfl, rfl⟩
  exact ⟨first, others, middle, rfl, hfirst, hothers⟩

/-- A list of arguments. -/
theorem relates_argumentList (h : Relates p A) : Relates (arguments p) (ArgumentList A) := by
  have hcomma : Relates (comma p) (Behind "," A) := relates_behind "," h
  refine .ifOpens _ (((relates_sign "(").bind fun _ => h.bind fun first =>
    (hcomma.repeatWhile _).bind fun others => (relates_sign ")").bind fun _ =>
      .pure (first :: others)).mono ?_) ((Relates.pure []).mono ?_)
  · rintro text values left ⟨_, inner, hopening, first, middle, hfirst, others, last, hothers,
      _, _, hclosing, rfl, rfl⟩
    exact .some hopening hfirst hothers hclosing
  · rintro text values left ⟨rfl, rfl⟩
    exact .none _

theorem steps_mono {C D : List Char → α → List Char → Prop}
    (hsub : ∀ {text value left}, C text value left → D text value left)
    (h : Steps C text values left) : Steps D text values left := by
  induction h with
  | nil => exact .nil _
  | cons item _ ih => exact .cons (hsub item) ih

theorem behind_mono (hsub : ∀ {text value left}, A text value left → B text value left)
    (h : Behind sign A text value left) : Behind sign B text value left := by
  rcases h with ⟨middle, hsign, h⟩
  exact ⟨middle, hsign, hsub h⟩

theorem inParens_mono (hsub : ∀ {text value left}, A text value left → B text value left)
    (h : InParens A text value left) : InParens B text value left := by
  rcases h with ⟨inner, middle, hopening, h, hclosing⟩
  exact ⟨inner, middle, hopening, hsub h, hclosing⟩

theorem ArgumentList.mono (hsub : ∀ {text value left}, A text value left → B text value left)
    (h : ArgumentList A text values left) : ArgumentList B text values left := by
  cases h with
  | none => exact .none _
  | some hopening hfirst hothers hclosing =>
      exact .some hopening (hsub hfirst) (steps_mono (behind_mono hsub) hothers) hclosing

/-- More layers of parentheses hold what fewer do. -/
theorem Grows.wrapped (h : Grows R) : Grows (Wrapped R) := by
  intro depth
  induction depth with
  | zero => exact fun hnone => hnone.elim
  | succ depth ih =>
      rintro text value left (hbare | hparens)
      · exact .inl (h hbare)
      · exact .inr (inParens_mono ih hparens)

/-- A layer around each item is one around all of them. -/
theorem wrapped_of_succ (h : Wrapped (fun depth => R (depth + 1)) depth text value left) :
    Wrapped R (depth + 1) text value left := by
  induction depth generalizing text value left with
  | zero => exact h.elim
  | succ depth ih =>
      rcases h with hbare | hparens
      · exact .inl hbare
      · exact .inr (inParens_mono ih hparens)

/-- The arguments of a mapping, with the arrow behind them. -/
theorem relates_mappingArguments (hgrows : Grows R) (h : Relates p (Wrapped R n)) :
    Relates (mappingArguments p)
      (FrontOf Prod.mk (Wrapped R (n + 1)) (Maps (Wrapped R) (n + 1))) := by
  have hsorts : Relates ((fun sort => [sort]) <$> p <|> parens (sepBy1 p (operator "*")))
      fun text sorts middle => ∀ {behind}, SignAt ">" middle behind →
        FrontOf Prod.mk (Wrapped R (n + 1)) (Maps (Wrapped R) (n + 1)) text sorts behind := by
    refine .orElse ((h.map _).mono ?_) ((relates_inParens (relates_separated "*" h)).mono ?_)
    · rintro text _ middle ⟨sort, hsort, rfl⟩ behind harrow result left hresult
      exact .single (hgrows.wrapped hsort) harrow hresult
    · rintro text _ last ⟨inner, middle, hopening, ⟨first, others, _, rfl, hfirst, hothers⟩,
        hclosing⟩ behind harrow result left hresult
      rcases others with _ | ⟨second, others⟩
      · -- A single sort in parentheses is one argument as well.
        cases hothers
        exact .single (.inr ⟨_, _, hopening, hfirst, hclosing⟩) harrow hresult
      · exact .product hopening hfirst hothers (List.cons_ne_nil _ _) hclosing harrow hresult
  refine (hsorts.bind fun sorts => (relates_sign ">").bind fun _ => .pure sorts).mono ?_
  rintro text _ left ⟨sorts, middle, hfront, _, _, harrow, rfl, rfl⟩
  exact hfront harrow

/-- A mapping. -/
theorem relates_mapping (hgrows : Grows R) (h : Relates p (Wrapped R n)) :
    Relates (mapping p) (Maps (Wrapped R) (n + 1)) := by
  have hfront : Relates (withDefault [] (mappingArguments p))
      (FrontOf Prod.mk (Wrapped R (n + 1)) (Maps (Wrapped R) (n + 1))) := by
    refine (relates_mappingArguments hgrows h).orElse ((Relates.pure []).mono ?_)
    rintro text sorts middle ⟨rfl, rfl⟩ result left hresult
    exact .constant hresult
  refine (hfront.bind fun sorts => h.bind fun result => .pure (sorts, result)).mono ?_
  rintro text _ left ⟨sorts, middle, hfront, result, _, hresult, rfl, rfl⟩
  exact hfront (hgrows.wrapped hresult)

end

section

variable {A B : List Char → PolySort SortName → List Char → Prop}

/-- A sort whose arguments are read. -/
theorem relates_sortOf {argument : Parser (PolySort SortName)} (h : Relates argument A) :
    Relates (polySortRule argument) (SortOf A) := by
  refine .labeled _ (.orElse ((relates_var.map _).mono ?_)
    (((relates_name DefinedSort).labeled _).bind (fun name =>
      (relates_argumentList h).bind fun sorts => .pure (PolySort.application name sorts)) |>.mono ?_))
  · rintro text _ left ⟨v, ⟨_, rfl, hspells⟩, rfl⟩
    exact .var hspells
  · rintro text _ left ⟨name, middle, ⟨_, ⟨token, rfl, hname⟩, hspells⟩, sorts, _, hsorts, rfl, rfl⟩
    exact .application hname hspells hsorts

theorem SortOf.mono {text left : List Char} {sort : PolySort SortName}
    (hsub : ∀ {text value left}, A text value left → B text value left)
    (h : SortOf A text sort left) : SortOf B text sort left := by
  cases h with
  | var h => exact .var h
  | application hname htoken harguments => exact .application hname htoken (harguments.mono hsub)

/-- Sorts, with and without parentheses. -/
theorem relates_polySort_and_argument (n : Nat) :
    Relates (polySort n) (WritesSort n) ∧ Relates (polySortArgument n) (WritesSortArgument n) := by
  induction n with
  | zero => exact ⟨.abort _, .abort _⟩
  | succ n ih => exact ⟨relates_sortOf ih.2, relates_orParens ih.1 ih.2⟩

theorem relates_polySort (n : Nat) : Relates (polySort n) (WritesSort n) :=
  (relates_polySort_and_argument n).1

theorem writesSort_succ (depth : Nat) :
    (∀ {text sort left}, WritesSort depth text sort left → WritesSort (depth + 1) text sort left) ∧
    ∀ {text sort left}, WritesSortArgument depth text sort left →
      WritesSortArgument (depth + 1) text sort left := by
  induction depth with
  | zero => exact ⟨fun h => h.elim, fun h => h.elim⟩
  | succ depth ih =>
      refine ⟨fun h => SortOf.mono ih.2 h, ?_⟩
      rintro text sort left (hbare | hparens)
      · exact .inl (ih.1 hbare)
      · exact .inr (inParens_mono ih.2 hparens)

theorem grows_sort : Grows WritesSort :=
  (writesSort_succ _).1

end

/-- A variable as a type binds it. -/
theorem relates_boundSortVariable (n : Nat) :
    Relates (boundSortVariable n) (BindsVariable (n + 1)) := by
  have hkind : Relates kind WritesKind := by
    refine ((relates_wholeWord "$tType").bind fun _ => .pure ()).mono ?_
    rintro text _ left ⟨_, _, h, rfl, rfl⟩
    exact h
  have hgrows : Grows fun _ => WritesKind := fun h => h
  refine (relates_var.bind fun v => (relates_sign ":").bind fun _ =>
    (relates_wrapped (fun _ => hkind) n).bind fun _ => .pure v).mono ?_
  rintro text _ left ⟨v, middle, ⟨_, rfl, hvar⟩, _, behind, hcolon, _, _, hsort, rfl, rfl⟩
  exact ⟨middle, behind, hvar, hcolon, hgrows.wrapped hsort⟩

/-- The quantifier of a type, with the colon behind it. -/
theorem relates_typeQuantifier (n : Nat) :
    Relates (typeQuantifier n) (FrontOf (fun bound mapped => (bound, mapped)) (WritesMapping (n + 1))
      fun text type left => WritesType (n + 1) text type.1 type.2.1 type.2.2 left) := by
  have hlist : Relates (bracketList1 (boundSortVariable n)) _ :=
    (((relates_sign "[").bind fun _ =>
      (relates_separated "," (relates_boundSortVariable n)).bind fun bound =>
        (relates_sign "]").bind fun _ => .pure bound).labeled _).labeled _
  refine ((relates_wholeWord "!>").bind fun _ => hlist.bind fun bound =>
    (relates_sign ":").bind fun _ => .pure bound).mono ?_
  rintro text _ start ⟨_, list, hquantifier, _, after, ⟨_, first, hopening, _, last,
    ⟨v, others, middle, rfl, hfirst, hothers⟩, _, _, hclosing, rfl, rfl⟩, _, _, hcolon, rfl, rfl⟩
    mapped left hmapped
  exact .bound hquantifier hopening hfirst hothers hclosing hcolon hmapped

/-- A type is read from a text of it. -/
theorem relates_signature (n : Nat) :
    Relates (signature n) fun text type left => ∃ bound sorts result,
      type = .ofSorts bound sorts result ∧ WritesType (n + 1) text bound sorts result left := by
  have hmapping : Relates (optionalParens (fun n => mapping (polySortArgument n)) n)
      (WritesMapping (n + 1)) := by
    rw [polySortArgument_eq]
    refine (relates_wrapped (fun n => relates_mapping grows_sort
      (relates_wrapped relates_polySort n)) n).mono fun _ _ _ => wrapped_of_succ
  have hbound : Relates (withDefault [] (typeQuantifier n)) (FrontOf
      (fun bound mapped => (bound, mapped)) (WritesMapping (n + 1))
      fun text type left => WritesType (n + 1) text type.1 type.2.1 type.2.2 left) := by
    refine (relates_typeQuantifier n).orElse ((Relates.pure []).mono ?_)
    rintro text bound middle ⟨rfl, rfl⟩ mapped left hmapped
    exact .unbound hmapped
  refine ((hbound.bind fun bound => hmapping.bind fun mapped =>
    .pure (Signature.ofSorts bound mapped.1 mapped.2)).labeled _).mono ?_
  rintro text _ left ⟨bound, middle, hfront, mapped, _, hmapped, rfl, rfl⟩
  exact ⟨bound, mapped.1, mapped.2, rfl, hfront hmapped⟩

end Syntax

end Tptp
