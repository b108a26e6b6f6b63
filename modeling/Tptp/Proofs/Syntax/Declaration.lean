import Tptp.Grammar.Document
import Tptp.Proofs.Agreement.Note
import Tptp.Proofs.Syntax.Signature

/-!
# Declarations of Sorts and Declarations of Types

How the two declarations behind the role of types are told apart.

Both are an atom with a mapping behind a colon. The declaration of a sort is tried first, and
as soon as it has read one sort of all sorts it is not given up any more. So the declaration
of a type is read if the sort of all sorts is not found where its mapping starts, behind any
number of parentheses (`MissesKind`). A first sort with another name is enough for that.

## Main definitions

* `PolySort.IsKind`: The sort has the name of the sort of all sorts.
* `MissesKind`: The sort of all sorts does not stand behind the parentheses.

## Theorems

* `MissesKind.misses_sortDeclaration`: What is no declaration of a sort.
* `missesKind_of_type`: What is written as a type is none.
* `reads_sortDeclaration`, `reads_typing`: The two declarations.
-/

namespace Tptp

/-- The sort has the name of the sort of all sorts, with or without arguments. -/
def PolySort.IsKind : PolySort SortName → Prop
  | .var _ => False
  | .application name _ => name = SortName.all

namespace Syntax

open Reading Parser Grammar

variable {E : Abort → Prop} {depth n : Nat} {text middle start left : List Char}

/-- Behind at most as many parentheses the sort of all sorts does not stand. -/
def MissesKind : Nat → List Char → Prop
  | 0, _ => False
  | depth + 1, text =>
    (text.head? ≠ some '(' ∧ Fails kind (.ofList text)) ∨
      ∃ inner, SignAt "(" text inner ∧ Significant inner ∧ MissesKind depth inner

theorem MissesKind.succ (h : MissesKind depth text) : MissesKind (depth + 1) text := by
  induction depth generalizing text with
  | zero => exact h.elim
  | succ depth ih => exact h.imp_right fun ⟨inner, hopening, hinner, h⟩ =>
      ⟨inner, hopening, hinner, ih h⟩

theorem MissesKind.misses (h : MissesKind depth text) : MissesUnless E kind text := by
  cases depth with
  | zero => exact h.elim
  | succ depth =>
      rcases h with ⟨-, h⟩ | ⟨inner, hopening, -, -⟩
      · exact .inl h
      · refine misses_kind ?_
        rw [hopening.head? rfl]
        decide

/-- What misses in parentheses misses at the parenthesis. -/
theorem misses_parens {α : Type} {p : Parser α} {inner : List Char}
    (hopening : SignAt "(" text inner) (hinner : Significant inner) (h : MissesUnless E p inner) :
    MissesUnless E (parens p) text :=
  .labeled _ (.then (hopening.reads hinner) h.bind)

/-- What misses where the sort of all sorts does also misses there in redundant parentheses. -/
theorem MissesKind.misses_optionalParens {α : Type} {p : Nat → Parser α} (more : Nat)
    (hp : ∀ {depth n text}, MissesKind depth text → Allows E (depth + more) n →
      MissesUnless E (p n) text)
    (h : MissesKind depth text) (hallows : Allows E (depth + more + 1) n) :
    MissesUnless E (optionalParens p n) text := by
  -- Inside of a pair of parentheses there is one pair less, and one unit of the allowance less.
  induction depth generalizing n text with
  | zero => exact h.elim
  | succ depth ih =>
      cases n with
      | zero => exact .abort hallows.tooDeep
      | succ n =>
          have hbare := hp h hallows.of_succ
          rcases h with ⟨hhead, -⟩ | ⟨inner, hopening, hinner, h⟩
          · exact misses_ifOpens_of_ne hhead hbare
          · exact misses_ifOpens (hopening.head? rfl) (.orElse hbare (misses_parens hopening hinner
              (ih h (hallows.of_succ.mono (by omega) (Nat.le_refl n)))))

theorem MissesKind.misses_kindArgument (h : MissesKind depth text)
    (hallows : Allows E (depth + 1) n) : MissesUnless E (kindArgument n) text :=
  misses_optionalParens 0 (fun h _ => h.misses) h hallows

/-- There is no mapping of sorts of all sorts, with or without arguments. -/
theorem MissesKind.misses_arity (h : MissesKind depth text) (hallows : Allows E (depth + 1) n) :
    MissesUnless E (arity n) text := by
  have hitem := h.misses_kindArgument hallows
  -- Behind a parenthesis the same is missed, as the first of several arguments.
  have hproduct : MissesUnless E (parens (sepBy1 (kindArgument n) (operator "*"))) text := by
    cases depth with
    | zero => exact h.elim
    | succ depth =>
        rcases h with ⟨hhead, -⟩ | ⟨inner, hopening, hinner, h⟩
        · exact .labeled _ (.bind (misses_operator (c := '(') rfl hhead))
        · exact misses_parens hopening hinner
            (h.misses_kindArgument (hallows.mono (by omega) (Nat.le_refl n))).bind
  exact .bind (.then (.orElse_of_misses (.bind (.orElse hitem.map hproduct)) (.pure [] text))
    hitem.bind)

/-- The declaration of a sort is passed over. -/
theorem MissesKind.misses_sortDeclaration {a : Atom} (hatom : Spells [.atom a] text middle)
    (hcolon : SignAt ":" middle start) (hstart : Significant start) (h : MissesKind depth start)
    (hallows : Allows E (depth + 2) n) : MissesUnless E (sortDeclaration n) text := by
  have harity : MissesUnless E (optionalParens arity n) start :=
    misses_optionalParens 1 (fun h hallows => h.misses_arity hallows) h hallows
  exact .then (reads_atom hatom (stops_of_sign hcolon rfl (by decide)).tokenEnds)
    (.then (hcolon.reads hstart) harity.bind)

section

variable {sort : PolySort SortName}

/-- The sort of all sorts is not read where a name stands that is not its name. -/
theorem misses_kind_of_name {token : Token} {name : SortName}
    (hname : token.name? DefinedSort = some name) (htoken : Spells [token] text middle)
    (hmiddle : WordEnds middle) (hkind : name ≠ SortName.all) : MissesUnless E kind text := by
  cases token with
  | reserved word =>
      rcases spells_singleton.mp htoken with ⟨spelling, rest, rfl, hspelling, hskips⟩
      cases hspelling with
      | reserved hlower =>
          -- The word may start with the letters of the other one, so it matters where it ends.
          refine .bind (misses_lexeme (misses_otherWord ['$'] "tType".toList rfl
            (by decide) (all_isWordChar_of_isLowerWord hlower)
            (wordEnds_of_skips hskips hmiddle) fun hword => hkind ?_))
          rw [String.toList_inj.mp hword] at hname
          exact (Option.some.inj hname).symm.trans (by decide)
  | atom a => exact misses_kind (htoken.head?_ne rfl)
  | _ => exact absurd hname (by simp only [Token.name?, reduceCtorEq, not_false_eq_true])

/-- The sort of all sorts is not read where another sort stands. -/
theorem misses_kind_of_sort (hsort : WritesSort depth text sort left) (hleft : SortEnds left)
    (hkind : ¬ sort.IsKind) : MissesUnless E kind text := by
  cases depth with
  | zero => exact hsort.elim
  | succ depth =>
      rcases hsort with h | ⟨hname, htoken, harguments⟩
      · exact misses_kind (h.head?_ne rfl)
      · exact misses_kind_of_name hname htoken (harguments.tokenEnds hleft).wordEnds hkind

/-- Without parentheses in front a sort opens with no parenthesis. -/
theorem head?_ne_of_sort (hsort : WritesSort depth text sort left) : text.head? ≠ some '(' := by
  cases depth with
  | zero => exact hsort.elim
  | succ depth =>
      rcases hsort with h | ⟨hname, h, -⟩
      · exact h.head?_ne rfl
      · refine h.head?_ne (Bool.eq_false_iff.mpr fun hopens => ?_)
        exact (opens_name hname hopens).2.2.2 (by decide)

theorem missesKind_of_sort (hsort : Wrapped WritesSort depth text sort left)
    (hleft : SortEnds left) (hkind : ¬ sort.IsKind) : MissesKind depth text := by
  induction depth generalizing text left with
  | zero => exact hsort.elim
  | succ depth ih =>
      rcases hsort with hsort | ⟨inner, middle, hopening, hsort, hclosing⟩
      · exact .inl ⟨head?_ne_of_sort hsort, (misses_kind_of_sort hsort hleft hkind).fails⟩
      · exact .inr ⟨inner, hopening, ((shaped_wrapped shaped_sort _).starts hsort).significant,
          ih hsort (sortEnds_of_head (hclosing.head? rfl) (by decide))⟩

/-- At the start of a mapping the sort of all sorts is not found if it is not the first sort. -/
theorem missesKind_of_maps {sorts : List (PolySort SortName)} {result : PolySort SortName}
    (h : Maps (Wrapped WritesSort) depth text (sorts, result) left) (hleft : SortEnds left)
    (hkind : ∀ sort ∈ result :: sorts, ¬ sort.IsKind) : MissesKind depth text := by
  cases h with
  | constant hsort => exact missesKind_of_sort hsort hleft (hkind _ List.mem_cons_self)
  | single hsort harrow =>
      exact missesKind_of_sort hsort (sortEnds_of_head (harrow.head? rfl) (by decide))
        (hkind _ (List.mem_cons_of_mem _ List.mem_cons_self))
  | product hopening hfirst hothers hne =>
      -- The parenthesis in front of several arguments is one more in front of the first.
      refine .inr ⟨_, hopening, ((shaped_wrapped shaped_sort _).starts hfirst).significant,
        missesKind_of_sort hfirst ?_ (hkind _ (List.mem_cons_of_mem _ List.mem_cons_self))⟩
      cases hothers with
      | nil => exact absurd rfl hne
      | cons item =>
          rcases item with ⟨_, hstar, -⟩
          exact sortEnds_of_head (hstar.head? rfl) (by decide)

theorem missesKind_of_mapping {sorts : List (PolySort SortName)} {result : PolySort SortName}
    (h : WritesMapping depth text (sorts, result) left) (hleft : SortEnds left)
    (hkind : ∀ sort ∈ result :: sorts, ¬ sort.IsKind) : MissesKind depth text := by
  induction depth generalizing text left with
  | zero => exact h.elim
  | succ depth ih =>
      rcases h with h | ⟨inner, middle, hopening, h, hclosing⟩
      · exact (missesKind_of_maps h hleft hkind).succ
      · exact .inr ⟨inner, hopening, (sortStarts_of_mapping h).significant,
          ih h (sortEnds_of_head (hclosing.head? rfl) (by decide))⟩

end

section

variable {a : Atom} {bound : List Var} {sorts : List (PolySort SortName)}
  {result : PolySort SortName}

/-- The sort of all sorts is found neither in front of a quantifier nor in front of a mapping
    that starts with another sort. -/
theorem missesKind_of_type (h : WritesType depth text bound sorts result left)
    (hleft : SortEnds left) (hkind : ∀ sort ∈ result :: sorts, ¬ sort.IsKind) :
    MissesKind depth text := by
  cases h with
  | unbound h => exact missesKind_of_mapping h hleft hkind
  | bound hquantifier _ _ _ _ _ h =>
      rcases hquantifier with ⟨rest, rfl, -⟩
      have hhead : ∀ {c : Char}, c ≠ '!' → ("!>".toList ++ rest).head? ≠ some c :=
        fun hc h => hc (Option.some.inj h).symm
      cases depth with
      | zero => exact h.elim
      | succ depth => exact .inl ⟨hhead (by decide), (misses_kind (hhead (by decide))).fails⟩

/-- The declaration of a type is read, and not taken for that of a sort. -/
theorem reads_typing (hatom : Spells [.atom a] text middle) (hcolon : SignAt ":" middle start)
    (h : WritesType depth start bound sorts result left) (hleft : SortEnds left)
    (harrow : left.head? ≠ some '>') (hkind : ∀ sort ∈ result :: sorts, ¬ sort.IsKind)
    (hallows : Allows E (depth + 2) n) :
    ReadsUnless E (typeDeclaration n) text (.typing a (.ofSorts bound sorts result)) left := by
  have hstart := significant_of_writesType h
  have hsignature : ReadsUnless E (optionalParens signature n) start (.ofSorts bound sorts result)
      left :=
    reads_optionalParens (fun hallows => reads_signature h hleft harrow hallows)
      (hallows.mono (Nat.le_succ _) (Nat.le_refl n))
  refine .labeled _ (.orElse_of_misses ((missesKind_of_type h hleft hkind).misses_sortDeclaration
    hatom hcolon hstart hallows) ?_)
  exact (reads_atom hatom (stops_of_sign hcolon rfl (by decide)).tokenEnds).bind
    ((hcolon.reads hstart).bind (hsignature.bind (.pure _ _)))

/-- The declaration of a sort is read. -/
theorem reads_sortDeclaration {kinds : List Unit} (hatom : Spells [.atom a] text middle)
    (hcolon : SignAt ":" middle start)
    (h : Maps (Wrapped fun _ => WritesKind) depth start (kinds, ()) left) (hleft : SortEnds left)
    (harrow : left.head? ≠ some '>') (hallows : Allows E (depth + 1) n) :
    ReadsUnless E (typeDeclaration n) text (.sort a kinds.length) left := by
  have hstart := (sortStarts_of_maps (shaped_wrapped fun _ => shaped_kind) h).significant
  have harity : ReadsUnless E (optionalParens arity n) start kinds.length left := by
    refine reads_optionalParens (fun hallows => ?_) hallows
    exact (reads_mapping accepts_kind h hleft harrow hallows).bind (.pure _ _)
  -- The length of a list is not negative, so the declaration is not refused.
  have hbuild : ReadsUnless E (build (Declaration.ofArity a kinds.length)) left
      (.sort a kinds.length) left := by
    rw [Declaration.ofArity, if_pos (Int.natCast_nonneg _), Int.toNat_natCast]
    exact .pure _ _
  refine .labeled _ (.orElse ?_)
  exact (reads_atom hatom (stops_of_sign hcolon rfl (by decide)).tokenEnds).bind
    ((hcolon.reads hstart).bind (harity.bind hbuild))

end

end Syntax

end Tptp
