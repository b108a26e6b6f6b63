import Tptp.Proofs.Syntax.Mapping
import Tptp.Proofs.Syntax.Term
import Tptp.Read

/-!
# Types in Redundant Parentheses

Redundant parentheses do not change what a type is read as.

`WritesType` gives the texts of a type. There may be any number of parentheses around each
sort, around each argument of a sort constructor, around the sort of a bound variable and
around the mapping as a whole, and exactly one pair around several argument sorts. None of
them leaves a trace in the value: what a text is read as depends on the sorts alone.

Two kinds of texts are no types. Where several argument sorts stand in more than one pair
of parentheses, the additional ones belong to no layer of the grammar. And no sort is read
from parentheses that are too many for the allowance.

## Main definitions

* `WritesSort`, `WritesKind`, `WritesType`: The texts of sorts, of the sort of all sorts,
  and of types, nested no deeper than a number says.

## Theorems

* `accepts_sort`, `accepts_kind`: Sorts, and the sort of all sorts, are read.
* `reads_signature`: Types are read.
* `signature_ok_of_writes`: A text of a type is read as this type.
* `givesUp_sortArgument`: Too many parentheses around a sort.
-/

namespace Tptp

namespace Syntax

open Reading Parser Grammar

/-- A list of arguments stands at the start of a text, or nothing does. -/
inductive ArgumentList {α : Type} (A : List Char → α → List Char → Prop) :
    List Char → List α → List Char → Prop where
  | none (text : List Char) : ArgumentList A text [] text
  | some {text inner middle last left : List Char} {first : α} {others : List α}
      (hopening : SignAt "(" text inner) (hfirst : A inner first middle)
      (hothers : Steps (Behind "," A) middle others last) (hclosing : SignAt ")" last left) :
      ArgumentList A text (first :: others) left

/-- A sort whose arguments stand in a relation to their texts. -/
inductive SortOf (A : List Char → PolySort SortName → List Char → Prop) :
    List Char → PolySort SortName → List Char → Prop where
  | var {v : Var} {text left : List Char} (h : Spells [.var v] text left) :
      SortOf A text (.var v) left
  | application {token : Token} {name : SortName} {sorts : List (PolySort SortName)}
      {text middle left : List Char} (hname : token.name? DefinedSort = some name)
      (htoken : Spells [token] text middle) (harguments : ArgumentList A middle sorts left) :
      SortOf A text (.application name sorts) left

mutual

/-- The texts of a sort. -/
def WritesSort : Nat → List Char → PolySort SortName → List Char → Prop
  | 0, _, _, _ => False
  | depth + 1, text, sort, left => SortOf (WritesSortArgument depth) text sort left

/-- The texts of a sort in redundant parentheses. -/
def WritesSortArgument : Nat → List Char → PolySort SortName → List Char → Prop
  | 0, _, _, _ => False
  | depth + 1, text, sort, left =>
    WritesSort depth text sort left ∨ InParens (WritesSortArgument depth) text sort left

end

/-- The texts of the sort of all sorts. -/
def WritesKind (text : List Char) (_ : Unit) (left : List Char) : Prop :=
  SignAt "$tType" text left

/-- The texts of a sort variable as a type binds it. -/
def BindsVariable (depth : Nat) (text : List Char) (v : Var) (left : List Char) : Prop :=
  ∃ middle behind, Spells [.var v] text middle ∧ SignAt ":" middle behind ∧
    Wrapped (fun _ => WritesKind) depth behind () left

/-- The texts of a mapping in redundant parentheses. -/
def WritesMapping : Nat → List Char → List (PolySort SortName) × PolySort SortName →
    List Char → Prop :=
  Wrapped (Maps (Wrapped WritesSort))

/-- The texts of a type. -/
inductive WritesType (depth : Nat) : List Char → List Var → List (PolySort SortName) →
    PolySort SortName → List Char → Prop where
  | unbound {text left : List Char} {sorts : List (PolySort SortName)} {result : PolySort SortName}
      (h : WritesMapping depth text (sorts, result) left) :
      WritesType depth text [] sorts result left
  | bound {text list first middle last after start left : List Char} {v : Var} {others : List Var}
      {sorts : List (PolySort SortName)} {result : PolySort SortName}
      (hquantifier : SignAt "!>" text list) (hopening : SignAt "[" list first)
      (hfirst : BindsVariable depth first v middle)
      (hothers : Steps (Behind "," (BindsVariable depth)) middle others last)
      (hclosing : SignAt "]" last after) (hcolon : SignAt ":" after start)
      (h : WritesMapping depth start (sorts, result) left) :
      WritesType depth text (v :: others) sorts result left

/-- The argument relation only adds parentheses. -/
theorem writesSortArgument_eq : WritesSortArgument = Wrapped WritesSort := by
  funext depth
  induction depth with
  | zero =>
      funext text sort left
      rw [WritesSortArgument, Wrapped]
  | succ depth ih =>
      funext text sort left
      rw [WritesSortArgument, Wrapped, ih]

variable {E : Abort → Prop} {depth n : Nat} {text middle left : List Char}

theorem stops_of_sign {sign : String} {c : Char} (h : SignAt sign text left)
    (hsign : sign.toList = [c]) (hc : c ∈ stoppers) : Stops text := by
  intro d hd
  rw [h.head? hsign, Option.mem_some_iff] at hd
  exact hd ▸ hc

section

variable {α : Type} {A : List Char → α → List Char → Prop} {values : List α}

theorem length_le_of_steps {sign : String} (hA : Shaped A)
    (h : Steps (Behind sign A) text values left) : left.length ≤ text.length := by
  induction h with
  | nil => exact Nat.le_refl _
  | cons item _ ih =>
      rcases item with ⟨_, hsign, hitem⟩
      have h1 := hsign.length_le
      have h2 := hA.length_le hitem
      omega

theorem ArgumentList.length_le (hA : Shaped A) (h : ArgumentList A text values left) :
    left.length ≤ text.length := by
  cases h with
  | none => exact Nat.le_refl _
  | some hopening hfirst hothers hclosing =>
      have h1 := hopening.length_le
      have h2 := hA.length_le hfirst
      have h3 := length_le_of_steps hA hothers
      have h4 := hclosing.length_le
      omega

/-- What a list of arguments starts with ends a name in front of it. -/
theorem ArgumentList.tokenEnds (h : ArgumentList A text values left) (hleft : SortEnds left) :
    TokenEnds text := by
  cases h with
  | none => exact hleft.toTokenEnds
  | some hopening => exact (stops_of_sign hopening rfl (by decide)).tokenEnds

/-- Lists of arguments are read. -/
theorem ArgumentList.reads {argument : Parser α} (hA : Shaped A)
    (hreads : ∀ {text value left}, A text value left → SortEnds left →
      ReadsUnless E argument text value left)
    (h : ArgumentList A text values left) (hleft : SortEnds left) :
    ReadsUnless E (arguments argument) text values left := by
  cases h with
  | none => exact reads_ifOpens_of_ne hleft.noArguments (.pure [] _)
  | some hopening hfirst hothers hclosing =>
      have hlast := sortEnds_of_head (hclosing.head? rfl) (by decide)
      rcases reads_steps (repeatWhile (·.opensWith ',') (comma argument)) rfl (by decide)
        hA hreads (fun hne => .repeatWhile_nil
          (Bool.eq_false_iff.mpr fun hopens => hne (opensWith_ofList_iff.mp hopens)))
        (fun hhead hp hlt hloop => .repeatWhile_cons (opensWith_ofList_iff.mpr hhead) hp hlt hloop)
        hothers hlast (by rw [hclosing.head? rfl]; decide) with ⟨hloop, hends⟩
      refine reads_ifOpens (hopening.head? rfl) ?_
      refine (hopening.reads (hA.starts hfirst).significant).bind ((hreads hfirst hends).bind ?_)
      exact hloop.bind ((hclosing.reads hleft.significant).bind (.pure _ _))

end

section

variable {A : List Char → PolySort SortName → List Char → Prop} {sort : PolySort SortName}

/-- What a name of a sort opens with. -/
theorem sortStarts_of_name {token : Token} {name : SortName}
    (hname : token.name? DefinedSort = some name) (h : Spells [token] text left) :
    SortStarts text ∧ ∀ c ∈ text.head?, c.isUpper = false := by
  rcases h.exists_cons with ⟨c, rest, rfl, hc⟩
  refine ⟨⟨c, rfl, ?_⟩, fun d hd => ?_⟩
  · cases token with
    | reserved =>
        rw [beq_iff_eq.mp hc]
        decide
    | atom =>
        simp only [Token.opens, Bool.or_eq_true, beq_iff_eq] at hc
        rcases hc with rfl | hc
        · decide
        · rw [Text.isWordChar_of_isLower hc, Bool.true_or]
    | _ => exact absurd hname (by simp only [Token.name?, reduceCtorEq, not_false_eq_true])
  · rw [List.head?_cons, Option.mem_some_iff] at hd
    rw [← hd, ← Bool.not_eq_true]
    intro hupper
    exact absurd (isUpperCase_of_isUpper hupper) (by rw [(opens_name hname hc).1]; decide)

theorem sortStarts_of_var {v : Var} (h : Spells [.var v] text left) : SortStarts text := by
  rcases h.exists_cons with ⟨c, rest, rfl, hc⟩
  exact ⟨c, rfl, by rw [Text.isWordChar_of_isUpper hc, Bool.true_or]⟩

theorem shaped_sortOf (hA : Shaped A) : Shaped (SortOf A) := by
  constructor
  · rintro text sort left (h | ⟨hname, htoken, -⟩)
    · exact sortStarts_of_var h
    · exact (sortStarts_of_name hname htoken).1
  · rintro text sort left (h | ⟨-, htoken, harguments⟩)
    · exact h.length_le
    · exact Nat.le_trans (harguments.length_le hA) htoken.length_le

/-- A sort is read if its arguments are. -/
theorem reads_sortOf {argument : Parser (PolySort SortName)} (hA : Shaped A)
    (hreads : ∀ {text sort left}, A text sort left → SortEnds left →
      ReadsUnless E argument text sort left)
    (h : SortOf A text sort left) (hleft : SortEnds left) :
    ReadsUnless E (polySortRule argument) text sort left := by
  cases h with
  | var h => exact .labeled _ (.orElse ((reads_var h hleft.toTokenEnds).map _))
  | application hname htoken harguments =>
      refine .labeled _ (.orElse_of_misses (.map (.labeled _ (.bind (misses_lexeme
        (misses_word _ (sortStarts_of_name hname htoken).2))))) ?_)
      exact ((reads_name _ hname htoken (harguments.tokenEnds hleft)).labeled _).bind
        ((harguments.reads hA hreads hleft).bind (.pure _ _))

theorem misses_polySort (hhead : text.head? = some '(') (hallows : Allows E 1 n) :
    MissesUnless E (polySort n) text := by
  cases n with
  | zero => exact .abort hallows.tooDeep
  | succ n =>
      refine .labeled _ (.orElse (.map (.labeled _ (.bind (misses_lexeme (misses_word _ ?_)))))
        (.bind (.labeled _ (misses_name _ ?_))))
      · rw [hhead]
        rintro c ⟨⟩
        decide
      · rw [hhead]
        rintro c ⟨⟩
        decide

theorem shaped_sort_and_argument (depth : Nat) :
    Shaped (WritesSort depth) ∧ Shaped (WritesSortArgument depth) := by
  induction depth with
  | zero => exact ⟨⟨False.elim, False.elim⟩, ⟨False.elim, False.elim⟩⟩
  | succ depth ih => exact ⟨shaped_sortOf ih.2, ih.1.inParens ih.2⟩

theorem reads_sort_and_argument (depth : Nat) :
    (∀ {n text sort left}, WritesSort depth text sort left → SortEnds left → Allows E depth n →
      ReadsUnless E (polySort n) text sort left) ∧
    ∀ {n text sort left}, WritesSortArgument depth text sort left → SortEnds left →
      Allows E depth n → ReadsUnless E (polySortArgument n) text sort left := by
  -- Both at once, since each of them is what the other one is made of.
  induction depth with
  | zero => exact ⟨fun h => False.elim h, fun h => False.elim h⟩
  | succ depth ih =>
      constructor
      · intro n text sort left h hleft hallows
        cases n with
        | zero => exact .abort hallows.tooDeep
        | succ n =>
            exact reads_sortOf (shaped_sort_and_argument depth).2
              (fun h hleft => ih.2 h hleft hallows.of_succ) h hleft
      · intro n text sort left h hleft hallows
        cases n with
        | zero => exact .abort hallows.tooDeep
        | succ n =>
            have hinner := hallows.of_succ
            refine reads_orParens_of_written (shaped_sort_and_argument depth).2.starts
              (fun h => ih.1 h hleft hinner) ?_ (fun h hhead => ih.2 h
                (sortEnds_of_head hhead (by decide)) hinner) h hleft.significant
            -- A sort without parentheses does not open with one.
            rintro ⟨_, _, hopening, h, -⟩
            rw [writesSortArgument_eq] at h
            exact misses_polySort (hopening.head? rfl)
              (hinner.mono (one_le_of_wrapped h) (Nat.le_refl n))

theorem shaped_sort (depth : Nat) : Shaped (WritesSort depth) :=
  (shaped_sort_and_argument depth).1

/-- Sorts are read. -/
theorem accepts_sort : Accepts E polySort WritesSort :=
  ⟨shaped_sort, misses_polySort,
    fun h hleft hallows => (reads_sort_and_argument _).1 h hleft hallows⟩

end

theorem shaped_kind : Shaped WritesKind := by
  constructor
  · rintro text value left ⟨rest, rfl, -⟩
    exact ⟨'$', rfl, by decide⟩
  · intro text value left h
    have hle := SignAt.length_le h
    omega

/-- The sort of all sorts is not read where another character stands. -/
theorem misses_kind (h : text.head? ≠ some '$') : MissesUnless E kind text := by
  refine .bind (misses_lexeme (misses_wholeWord ?_))
  rintro ⟨rest, rfl⟩
  exact h rfl

/-- The sort of all sorts is read. -/
theorem accepts_kind : Accepts E (fun _ => kind) fun _ => WritesKind := by
  refine ⟨fun _ => shaped_kind, fun hhead _ => misses_kind ?_, ?_⟩
  · rw [hhead]
    decide
  · rintro depth n text value left ⟨rest, rfl, hskips⟩ hleft -
    exact (reads_lexeme (reads_wholeWord _ _ (wordEnds_of_skips hskips hleft.wordEnds)) hskips
      hleft.significant).bind (.pure _ _)

theorem shaped_bindsVariable (depth : Nat) : Shaped (BindsVariable depth) := by
  constructor
  · rintro text v left ⟨_, _, hvar, -⟩
    exact sortStarts_of_var hvar
  · rintro text v left ⟨_, _, hvar, hcolon, hkind⟩
    have h1 := hvar.length_le
    have h2 := hcolon.length_le
    have h3 := (shaped_wrapped (fun _ => shaped_kind) depth).length_le hkind
    omega

theorem reads_boundSortVariable {v : Var} (h : BindsVariable depth text v left)
    (hleft : SortEnds left) (hallows : Allows E depth n) :
    ReadsUnless E (boundSortVariable n) text v left := by
  rcases h with ⟨_, _, hvar, hcolon, hkind⟩
  have hstarts := (shaped_wrapped (fun _ => shaped_kind) depth).starts hkind
  refine (reads_var hvar (stops_of_sign hcolon rfl (by decide)).tokenEnds).bind
    ((hcolon.reads hstarts.significant).bind ?_)
  exact (accepts_kind.reads_wrapped hkind hleft hallows).bind (.pure _ _)

/-- No type that binds nothing starts as a quantifier does. -/
theorem misses_typeQuantifier (h : text.head? ≠ some '!') :
    MissesUnless E (typeQuantifier n) text := by
  refine .bind (misses_lexeme (misses_wholeWord ?_))
  rintro ⟨rest, rfl⟩
  exact h rfl

/-- The quantifier of a type is read. -/
theorem reads_typeQuantifier {list first last after start : List Char} {v : Var}
    {others : List Var} (hquantifier : SignAt "!>" text list) (hopening : SignAt "[" list first)
    (hfirst : BindsVariable depth first v middle)
    (hothers : Steps (Behind "," (BindsVariable depth)) middle others last)
    (hclosing : SignAt "]" last after) (hcolon : SignAt ":" after start)
    (hstart : Significant start) (hallows : Allows E depth n) :
    ReadsUnless E (typeQuantifier n) text (v :: others) start := by
  have hshaped := shaped_bindsVariable depth
  have hlist := stops_of_sign hopening rfl (by decide)
  have hafter := (stops_of_sign hcolon rfl (by decide)).significant
  have hvariables : ReadsUnless E (bracketList1 (boundSortVariable n)) list (v :: others)
      after := by
    refine .labeled _ (.labeled _ ((hopening.reads (hshaped.starts hfirst).significant).bind ?_))
    refine .bind (reads_separated rfl (by decide) rfl (by decide) (by decide) hshaped
      (fun h hends => reads_boundSortVariable h hends hallows) hfirst hothers hclosing) ?_
    exact (hclosing.reads hafter).bind (.pure _ _)
  rcases hquantifier with ⟨rest, rfl, hskips⟩
  exact (reads_lexeme (reads_wholeWord _ _ (wordEnds_of_skips hskips hlist.wordEnds)) hskips
    hlist.significant).bind (hvariables.bind ((hcolon.reads hstart).bind (.pure _ _)))

theorem sortStarts_of_mapping {v : List (PolySort SortName) × PolySort SortName}
    (h : WritesMapping depth text v left) : SortStarts text :=
  sortStarts_of_wrappedMaps (shaped_wrapped shaped_sort) h

/-- Types are read. -/
theorem reads_signature {bound : List Var} {sorts : List (PolySort SortName)}
    {result : PolySort SortName} (h : WritesType depth text bound sorts result left)
    (hleft : SortEnds left) (harrow : left.head? ≠ some '>') (hallows : Allows E depth n) :
    ReadsUnless E (signature n) text (.ofSorts bound sorts result) left := by
  have hmapping : ∀ {start}, WritesMapping depth start (sorts, result) left →
      ReadsUnless E (optionalParens (fun n => mapping (polySortArgument n)) n) start
        (sorts, result) left := by
    intro start h
    rw [polySortArgument_eq]
    exact reads_wrappedMapping accepts_sort h hleft harrow hallows
  refine .labeled _ ?_
  cases h with
  | unbound h =>
      have hquantifier := misses_typeQuantifier (E := E) (n := n)
        ((sortStarts_of_mapping h).ne (c := '!') (by decide))
      exact (ReadsUnless.orElse_of_misses hquantifier (.pure [] text)).bind
        ((hmapping h).bind (.pure _ _))
  | bound hquantifier hopening hfirst hothers hclosing hcolon h =>
      exact (ReadsUnless.orElse (reads_typeQuantifier hquantifier hopening hfirst hothers hclosing
        hcolon (sortStarts_of_mapping h).significant hallows)).bind ((hmapping h).bind (.pure _ _))

theorem sortEnds_nil : SortEnds [] :=
  ⟨⟨fun _ h => absurd h (Option.not_mem_none _), significant_nil⟩, fun h => nomatch h⟩

theorem significant_of_writesType {bound : List Var} {sorts : List (PolySort SortName)}
    {result : PolySort SortName} (h : WritesType depth text bound sorts result left) :
    Significant text := by
  cases h with
  | unbound h => exact (sortStarts_of_mapping h).significant
  | bound hquantifier =>
      rcases hquantifier with ⟨rest, rfl, -⟩
      exact significant_cons (by decide) (by decide) (by decide)

/-- A text of a type is read as this type, however many parentheses there are in it, unless it
    is nested too deeply. -/
theorem signature_ok_of_writes {text : String} {start : List Char} {bound : List Var}
    {sorts : List (PolySort SortName)} {result : PolySort SortName}
    (hlayout : Skips text.toList start) (h : WritesType depth start bound sorts result [])
    (hdepth : depth ≤ nestingAllowance ∨ Read.signature text ≠ .error (.aborted .tooDeep)) :
    Read.signature text = .ok (.ofSorts bound sorts result) :=
  read_ok_of_allows hlayout (significant_of_writesType h)
    (fun hallows => reads_signature h sortEnds_nil (fun h => nomatch h) hallows) hdepth

/-- A type with parentheses around the mapping, a sort argument and the result. -/
theorem signature_ok_of_parens :
    ∃ start depth, Skips "!>[A:$tType]:((f((A))*$i)>(A))".toList start ∧
      WritesType depth start [⟨"A"⟩] [.application (.user ⟨"f"⟩) [.var ⟨"A"⟩],
        .application (.reserved (.standard .individual)) []] (.var ⟨"A"⟩) [] ∧
      depth ≤ nestingAllowance ∧ Read.signature "!>[A:$tType]:((f((A))*$i)>(A))" =
        .ok (.ofSorts [⟨"A"⟩] [.application (.user ⟨"f"⟩) [.var ⟨"A"⟩],
          .application (.reserved (.standard .individual)) []] (.var ⟨"A"⟩)) := by
  have hvar : ∀ {left}, Spells [.var ⟨"A"⟩] ('A' :: left) left :=
    spells_singleton.mpr ⟨['A'], _, rfl, .var (by decide), .nil _⟩
  have hwrapped : ∀ {depth left}, Wrapped WritesSort (depth + 3) ('(' :: 'A' :: ')' :: left)
      (.var ⟨"A"⟩) left :=
    .inr ⟨_, _, ⟨_, rfl, .nil _⟩, .inl (.var hvar), ⟨_, rfl, .nil _⟩⟩
  have hfirst : ∀ {left}, Wrapped WritesSort 5 ('f' :: '(' :: '(' :: 'A' :: ')' :: ')' :: left)
      (.application (.user ⟨"f"⟩) [.var ⟨"A"⟩]) left := by
    intro left
    refine .inl (.application (show Token.name? _ (.atom ⟨"f"⟩) = _ from rfl)
      (spells_singleton.mpr ⟨['f'], _, rfl, .word (by decide), .nil _⟩) ?_)
    rw [writesSortArgument_eq]
    exact .some ⟨_, rfl, .nil _⟩ hwrapped (.nil _) ⟨_, rfl, .nil _⟩
  have hsecond : ∀ {left}, Wrapped WritesSort 5 ('$' :: 'i' :: left)
      (.application (.reserved (.standard .individual)) []) left :=
    .inl (.application (show Token.name? _ (.reserved "i") = _ by decide)
      (spells_singleton.mpr ⟨['$', 'i'], _, rfl, .reserved (by decide), .nil _⟩) (.none _))
  have htype : WritesType 8 "!>[A:$tType]:((f((A))*$i)>(A))".toList [⟨"A"⟩]
      [.application (.user ⟨"f"⟩) [.var ⟨"A"⟩],
        .application (.reserved (.standard .individual)) []] (.var ⟨"A"⟩) [] := by
    refine .bound ⟨_, rfl, .nil _⟩ ⟨_, rfl, .nil _⟩
      ⟨_, _, hvar, ⟨_, rfl, .nil _⟩, .inl ⟨_, rfl, .nil _⟩⟩ (.nil _) ⟨_, rfl, .nil _⟩
      ⟨_, rfl, .nil _⟩ (.inr ⟨_, _, ⟨_, rfl, .nil _⟩, .inl ?_, ⟨_, rfl, .nil _⟩⟩)
    exact .product ⟨_, rfl, .nil _⟩ hfirst (.cons ⟨_, ⟨_, rfl, .nil _⟩, hsecond⟩ (.nil _))
      (List.cons_ne_nil _ _) ⟨_, rfl, .nil _⟩ ⟨_, rfl, .nil _⟩ hwrapped
  have hdepth : 8 ≤ nestingAllowance := by decide
  exact ⟨_, 8, .nil _, htype, hdepth, signature_ok_of_writes (.nil _) htype (.inl hdepth)⟩

/-- Parentheses are no layout. -/
theorem significant_openings {later : List Char} (h : Significant later) (n : Nat) :
    Significant (List.replicate n '(' ++ later) := by
  cases n with
  | zero => exact h
  | succ n => exact significant_cons (by decide) (by decide) (by decide)

/-- In more parentheses than the allowance has room for no sort is read. -/
theorem givesUp_sortArgument {later : List Char} (hlater : Significant later) {allowance : Nat}
    (hle : allowance ≤ n) :
    GivesUp .tooDeep (polySortArgument allowance) (List.replicate n '(' ++ later) := by
  -- One parenthesis is taken away with each unit, after no sort was found in front of it.
  induction allowance generalizing n with
  | zero => rfl
  | succ allowance ih =>
      rcases n with _ | n
      · exact absurd hle (Nat.not_succ_le_zero allowance)
      · have hopening := (Reading.reads_operator (E := fun _ => False) "(" (.nil _)
          (significant_openings hlater n)).done
        exact .ifOpens rfl (.orElse_of_misses (misses_polySort rfl (.inr rfl))
          (.labeled _ (.then hopening (ih (Nat.le_of_succ_le_succ hle)).bind)))

/-- In more parentheses than the allowance has room for no type is read. -/
theorem signature_of_openings {later : List Char} (hlater : Significant later)
    (hle : nestingAllowance ≤ n) :
    Read.signature (.ofList (List.replicate n '(' ++ later)) = .error (.aborted .tooDeep) := by
  refine read_of_givesUp (.nil _) ?_ (.labeled _ ?_)
  · rw [String.toList_ofList]
    exact significant_openings hlater n
  rw [String.toList_ofList]
  rcases n with _ | n
  · exact absurd hle (by decide)
  · have hquantifier : MissesUnless (fun _ => False) (typeQuantifier nestingAllowance)
        (List.replicate (n + 1) '(' ++ later) := misses_typeQuantifier (by
      rw [List.replicate_succ, List.cons_append, List.head?_cons]
      decide)
    have hnone : (withDefault [] (typeQuantifier nestingAllowance) (.ofList
        (List.replicate (n + 1) '(' ++ later))).outcome = .done [] _ :=
      (ReadsUnless.orElse_of_misses hquantifier (.pure [] _)).done
    -- The first thing to be tried is the only argument of a mapping, and it takes all of them.
    have hsort := givesUp_sortArgument hlater (Nat.le_of_succ_le hle)
    have hmapping : GivesUp .tooDeep (mapping (polySortArgument (nestingAllowance - 1)))
        (List.replicate (n + 1) '(' ++ later) :=
      .bind (.orElse (.bind (.orElse (hsort.map _))))
    exact .then hnone (.bind (.ifOpens rfl hmapping.orElse))

/-- More than one pair of parentheses around two argument sorts, and ten thousand and one pairs
    around a sort, are not read. -/
theorem signature_not_ok_of_parens :
    (Read.signature "($i * $i) > $i").isOk = true ∧
    (Read.signature "(($i * $i)) > $i").isOk = false ∧
    Read.signature (.ofList (List.replicate 10001 '(' ++
      ("$i".toList ++ List.replicate 10001 ')'))) = .error (.aborted .tooDeep) := by
  refine ⟨by decide +kernel, by decide +kernel, signature_of_openings ?_ (by decide)⟩
  exact significant_cons (by decide) (by decide) (by decide)

end Syntax

end Tptp
