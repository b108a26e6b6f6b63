import Tptp.Proofs.Embedding.Unit
import Tptp.Proofs.Syntax.Declaration
import Tptp.Proofs.Writing.Token

/-!
# Reading Written Declarations Back

The canonical texts of sorts, types and declarations, and what a unit with one of them is
read as.

The name of a constructor is a quoted atom or a reserved word, its arguments stand behind it
in parentheses, and a mapping has parentheses around its arguments exactly if there are
several. Such a text is one of those that the grammar of types gives, so all that is left to
say is how deep it is nested: twice as deep as the sorts in it, and a few levels more.

## Main definitions

* `PolySort.written`, `PolySort.depth`: The text of a sort, and how deep it is nested.
* `typingText`, `sortText`: The texts of declarations.
* `Covers`: A relation holds between a value and its canonical text.

## Theorems

* `wrapped_written`, `maps_mappingText`, `writesType_written`: Canonical texts are texts of
  the grammar.
* `entry_ok_of_typeDeclaration`: Declarations are read back, each as what it is.
* `entry_of_nestedSort`: A sort that is nested too deeply is not.
-/

namespace Tptp

/-- The name of a sort. -/
def SortName.written : SortName → List Char
  | .reserved word => '$' :: word.text.toList
  | .user a => a.written

namespace PolySort

mutual

/-- The canonical text of a sort. -/
def written : PolySort SortName → List Char
  | .var v => v.text.toList
  | .application name sorts => SortName.written name ++ Text.argumentList (writtenAll sorts)

/-- The canonical texts of sorts. -/
def writtenAll : List (PolySort SortName) → List (List Char)
  | [] => []
  | sort :: sorts => sort.written :: writtenAll sorts

end

section

variable {ν : Type}

mutual

/-- How deep a sort is nested. -/
def depth : PolySort ν → Nat
  | .var _ => 1
  | .application _ sorts => depthAll sorts + 1

/-- How deep the deepest of these sorts is nested. -/
def depthAll : List (PolySort ν) → Nat
  | [] => 0
  | sort :: sorts => max sort.depth (depthAll sorts)

end

end

end PolySort

/-- A mapping with the texts of its arguments and its result. -/
def mappingText (sorts : List (List Char)) (result : List Char) : List Char :=
  match sorts with
  | [] => result
  | [sort] => sort ++ (" > ".toList ++ result)
  | first :: others =>
    '(' :: (first ++ (others.flatMap (" * ".toList ++ ·) ++ (") > ".toList ++ result)))

/-- The quantifier of a type, or nothing if it binds no variable. -/
def quantifierText : List Var → List Char
  | [] => []
  | first :: others =>
    "!>[".toList ++ (first.text.toList ++ (": $tType".toList ++
      (others.flatMap (fun v => ", ".toList ++ (v.text.toList ++ ": $tType".toList)) ++
        "] : ".toList)))

/-- The declaration of the type of a symbol. -/
def typingText (a : Atom) (bound : List Var) (sorts : List (PolySort SortName))
    (result : PolySort SortName) : String :=
  .ofList (a.written ++ (" : ".toList ++ (quantifierText bound ++
    mappingText (sorts.map PolySort.written) result.written)))

/-- The declaration of a sort constructor. -/
def sortText (a : Atom) (arity : Nat) : String :=
  .ofList (a.written ++ (" : ".toList ++
    mappingText (List.replicate arity "$tType".toList) "$tType".toList))

namespace Writing

open Reading Parser Text Syntax Grammar

variable {depth : Nat} {rest left : List Char}

theorem writtenAll_eq_map (sorts : List (PolySort SortName)) :
    PolySort.writtenAll sorts = sorts.map PolySort.written := by
  induction sorts with
  | nil => rfl
  | cons sort sorts ih => rw [PolySort.writtenAll, ih, List.map_cons]

theorem depth_le_depthAll {ν : Type} {sort : PolySort ν} {sorts : List (PolySort ν)}
    (h : sort ∈ sorts) : sort.depth ≤ PolySort.depthAll sorts := by
  induction sorts with
  | nil => exact absurd h List.not_mem_nil
  | cons first sorts ih =>
      rw [PolySort.depthAll]
      rcases List.mem_cons.mp h with rfl | h
      · exact Nat.le_max_left _ _
      · exact Nat.le_trans (ih h) (Nat.le_max_right _ _)

section

variable {α : Type} {R : List Char → α → List Char → Prop} {write : α → List Char}

/-- A relation holds between a value and its canonical text, with any layout behind it. -/
def Covers (R : List Char → α → List Char → Prop) (write : α → List Char) (value : α) : Prop :=
  ∀ ⦃rest left⦄, Skips rest left → R (write value ++ rest) value left

/-- Values with signs in front stand behind the layout that the signs may have around them. -/
theorem exists_steps (sign : String) (before after : List Char) {values : List α}
    (hvalues : ∀ value ∈ values, Covers R write value)
    (hbefore : ∀ text, Skips (before ++ (sign.toList ++ text)) (sign.toList ++ text))
    (hafter : ∀ text, Skips (after ++ text) text) (hskips : Skips rest left) :
    ∃ middle, Steps (Behind sign R) middle values left ∧ Skips (values.flatMap (fun value =>
      before ++ (sign.toList ++ (after ++ write value))) ++ rest) middle := by
  induction values with
  | nil => exact ⟨left, .nil left, hskips⟩
  | cons value values ih =>
      rcases ih fun value h => hvalues value (List.mem_cons_of_mem _ h) with
        ⟨middle, hsteps, hmiddle⟩
      rw [List.flatMap_cons]
      simp only [List.append_assoc]
      exact ⟨_, .cons ⟨_, ⟨_, rfl, hafter _⟩, hvalues value List.mem_cons_self hmiddle⟩ hsteps,
        hbefore _⟩

/-- The text of a list of arguments is one of its texts. -/
theorem argumentList_of_covers {first : α} {others : List α}
    (h : ∀ value ∈ first :: others, Covers R write value) (hskips : Skips rest left) :
    ArgumentList R (argumentList ((first :: others).map write) ++ rest) (first :: others) left := by
  have htext : argumentList ((first :: others).map write) ++ rest =
      '(' :: (write first ++ (others.flatMap (fun value =>
        [] ++ (",".toList ++ ([] ++ write value))) ++ ')' :: rest)) := by
    simp only [argumentList, List.map_cons, parenthesized, commaSeparated, List.flatMap_map,
      List.append_assoc, List.cons_append, List.nil_append]
    rfl
  rcases exists_steps "," [] [] (fun value hvalue => h value (List.mem_cons_of_mem _ hvalue))
    (fun _ => .nil _) (fun _ => .nil _) (.nil (')' :: rest)) with ⟨middle, hsteps, hmiddle⟩
  rw [htext]
  exact .some ⟨_, rfl, .nil _⟩ (h first List.mem_cons_self hmiddle) hsteps ⟨_, rfl, hskips⟩

end

/-- The text of a name spells a token that is this name. -/
theorem exists_token {name : SortName} (h : name.WellFormed) :
    ∃ token : Token, token.name? DefinedSort = some name ∧
      Spelling token (SortName.written name) := by
  cases name with
  | reserved word =>
      have hword : Reserved.WellFormed word := h
      refine ⟨.reserved word.text, ?_, .reserved (isLowerWord_text isLowerWord_definedSort hword)⟩
      rw [Token.name?, ofWord_text hword]
  | user a => exact ⟨.atom a, rfl, spelling_written h⟩

/-- The text of a sort is one of its texts. -/
theorem wrapped_written {sort : PolySort SortName} (h : sort.WellFormed)
    (hdepth : 2 * sort.depth ≤ depth) :
    Covers (Wrapped WritesSort depth) PolySort.written sort := by
  intro rest left hskips
  induction h generalizing depth rest left with
  | @var v h =>
      rw [PolySort.depth] at hdepth
      obtain ⟨depth, rfl⟩ := Nat.exists_eq_add_of_le' hdepth
      exact .inl (.var (spells_singleton.mpr ⟨_, rest, rfl, .var h, hskips⟩))
  | @application name sorts hname _ ih =>
      rw [PolySort.depth] at hdepth
      obtain ⟨depth, rfl⟩ := Nat.exists_eq_add_of_le' (m := 2) (by omega : 2 ≤ depth)
      rcases exists_token hname with ⟨token, htoken, hspelling⟩
      have harguments : ∀ sort ∈ sorts,
          Covers (Wrapped WritesSort depth) PolySort.written sort := by
        intro sort hsort rest left hskips
        have hle := depth_le_depthAll hsort
        exact ih sort hsort (by omega) hskips
      rw [PolySort.written, writtenAll_eq_map]
      -- The name takes one layer, and an argument one for the parentheses it might stand in.
      rcases sorts with _ | ⟨first, others⟩
      · exact .inl (.application htoken (spells_singleton.mpr
          ⟨_, rest, by rw [List.map_nil, argumentList, List.append_nil], hspelling, hskips⟩)
          (.none left))
      · rw [List.append_assoc]
        refine .inl (.application htoken (spells_singleton.mpr ⟨_, _, rfl, hspelling, .nil _⟩) ?_)
        rw [writesSortArgument_eq]
        exact argumentList_of_covers harguments hskips

section

variable {α : Type} {write : α → List Char} {values : List α} {result : α}

theorem skips_space (text : List Char) : Skips (' ' :: text) text :=
  .blank (by decide) (.nil text)

/-- The text of a mapping is one of its texts. -/
theorem maps_mappingText {R : Nat → List Char → α → List Char → Prop}
    (hR : ∀ {depth'}, depth ≤ depth' → ∀ value ∈ result :: values, Covers (R depth') write value)
    (hskips : Skips rest left) :
    Maps R (depth + 1) (mappingText (values.map write) (write result) ++ rest) (values, result)
      left := by
  have hresult := hR (Nat.le_succ depth) result List.mem_cons_self
  have hvalues := fun value h => hR (Nat.le_refl depth) value (List.mem_cons_of_mem _ h)
  -- Only several arguments stand in parentheses, which is one layer more than the result has.
  rcases values with _ | ⟨first, _ | ⟨second, others⟩⟩
  · exact .constant (hresult hskips)
  · have htext : mappingText [write first] (write result) ++ rest =
        write first ++ (' ' :: '>' :: ' ' :: (write result ++ rest)) := by
      simp only [mappingText, List.append_assoc]
      rfl
    have hfirst := hR (Nat.le_succ depth) first (List.mem_cons_of_mem _ List.mem_cons_self)
    exact htext ▸ .single (hfirst (skips_space _)) ⟨_, rfl, skips_space _⟩ (hresult hskips)
  · have htext : mappingText ((first :: second :: others).map write) (write result) ++ rest =
        '(' :: (write first ++ ((second :: others).flatMap (fun value =>
          [' '] ++ ("*".toList ++ ([' '] ++ write value))) ++
            (')' :: ' ' :: '>' :: ' ' :: (write result ++ rest)))) := by
      simp only [mappingText, List.map_cons, List.flatMap_cons, List.flatMap_map,
        List.append_assoc, List.cons_append, List.nil_append]
      rfl
    rcases exists_steps "*" [' '] [' ']
      (fun value h => hvalues value (List.mem_cons_of_mem _ h)) (fun _ => skips_space _)
      skips_space (.nil (')' :: ' ' :: '>' :: ' ' :: (write result ++ rest))) with
      ⟨middle, hsteps, hmiddle⟩
    exact htext ▸ .product ⟨_, rfl, .nil _⟩ (hvalues first List.mem_cons_self hmiddle) hsteps
      (List.cons_ne_nil _ _) ⟨_, rfl, skips_space _⟩ ⟨_, rfl, skips_space _⟩ (hresult hskips)

end

section

variable {bound : List Var} {sorts : List (PolySort SortName)} {result : PolySort SortName}

/-- The text of a sort variable as a type binds it. -/
theorem covers_bindsVariable (depth : Nat) {v : Var} (h : v.WellFormed) :
    Covers (BindsVariable (depth + 1)) (fun v => v.text.toList ++ ": $tType".toList) v := by
  intro rest left hskips
  rw [List.append_assoc]
  exact ⟨_, _, spells_singleton.mpr ⟨_, _, rfl, .var h, .nil _⟩, ⟨_, rfl, skips_space _⟩,
    .inl ⟨_, rfl, hskips⟩⟩

/-- The text of a mapping of sorts is one of its texts. -/
theorem writesMapping_written (hsorts : ∀ sort ∈ result :: sorts, sort.WellFormed)
    (hdepth : 2 * PolySort.depthAll (result :: sorts) ≤ depth) (hskips : Skips rest left) :
    WritesMapping (depth + 2) (mappingText (sorts.map PolySort.written) result.written ++ rest)
      (sorts, result) left := by
  have hall : ∀ {depth'}, depth ≤ depth' → ∀ sort ∈ result :: sorts,
      Covers (Wrapped WritesSort depth') PolySort.written sort := by
    intro depth' hle sort hsort
    have hsortDepth := depth_le_depthAll hsort
    exact wrapped_written (hsorts sort hsort) (by omega)
  exact .inl (maps_mappingText hall hskips)

/-- The text of a type is one of its texts. -/
theorem writesType_written (hbound : ∀ v ∈ bound, v.WellFormed)
    (hsorts : ∀ sort ∈ result :: sorts, sort.WellFormed)
    (hdepth : 2 * PolySort.depthAll (result :: sorts) ≤ depth) (hskips : Skips rest left) :
    WritesType (depth + 2) (quantifierText bound ++
      mappingText (sorts.map PolySort.written) result.written ++ rest) bound sorts result left := by
  have hmapping := writesMapping_written hsorts hdepth hskips
  rcases bound with _ | ⟨first, others⟩
  · exact .unbound hmapping
  · generalize mappingText (sorts.map PolySort.written) result.written = mapping at hmapping ⊢
    have htext : quantifierText (first :: others) ++ mapping ++ rest =
        '!' :: '>' :: '[' :: (first.text.toList ++ ": $tType".toList ++
          (others.flatMap (fun v =>
            [] ++ (",".toList ++ ([' '] ++ (v.text.toList ++ ": $tType".toList)))) ++
              ']' :: ' ' :: ':' :: ' ' :: (mapping ++ rest))) := by
      simp only [quantifierText, List.append_assoc]
      rfl
    rcases exists_steps "," [] [' ']
      (fun v h => covers_bindsVariable (depth + 1) (hbound v (List.mem_cons_of_mem _ h)))
      (fun _ => .nil _) skips_space (.nil (']' :: ' ' :: ':' :: ' ' :: (mapping ++ rest))) with
      ⟨middle, hsteps, hmiddle⟩
    rw [htext]
    exact .bound ⟨_, rfl, .nil _⟩ ⟨_, rfl, .nil _⟩
      (covers_bindsVariable (depth + 1) (hbound first List.mem_cons_self) hmiddle) hsteps
      ⟨_, rfl, skips_space _⟩ ⟨_, rfl, skips_space _⟩ hmapping

end

section

variable {language : Language} {name : String} {n : UnitName} {a : Atom} {text : Option String}
  {origin : Option Provenance}

/-- What stands behind a declaration ends a sort. -/
theorem sortEnds_unitEnd (text : Option String) :
    SortEnds (unitEnd text) ∧ (unitEnd text).head? ≠ some '>' := by
  cases text with
  | none => exact ⟨sortEnds_of_head rfl (by decide), by decide⟩
  | some text => exact ⟨sortEnds_of_head (c := ',') rfl (by decide), fun h => nomatch h⟩

theorem skips_unitEnd (text : Option String) : Skips ('\n' :: unitEnd text) (unitEnd text) :=
  .blank (by decide) (.nil _)

/-- Behind the role of types an atom with a colon opens what is declared. -/
theorem reads_declaration_of_colon {formula : Parser Formula} {allowance : Nat} {start : List Char}
    {d : Declaration} {E : Abort → Prop} (ha : a.WellFormed)
    (h : ∀ {text middle}, Spells [.atom a] text middle → SignAt ":" middle start →
      ReadsUnless E (optionalParens typeDeclaration allowance) text d left) :
    ReadsUnless E (declaration formula allowance)
      ("type".toList ++ '\n' :: ',' :: (a.written ++ (' ' :: ':' :: ' ' :: start))) d left := by
  have hspelling := spelling_written ha
  have hatom : Spells [.atom a] (a.written ++ (' ' :: ':' :: ' ' :: start)) (':' :: ' ' :: start) :=
    spells_singleton.mpr ⟨_, _, rfl, hspelling, skips_space _⟩
  have hcolon : SignAt ":" (':' :: ' ' :: start) start := ⟨_, rfl, skips_space _⟩
  exact reads_typedDeclaration
    (hatom.significant (stops_of_sign hcolon rfl (by decide)).significant) (h hatom hcolon)

theorem toList_typingText (bound : List Var) (sorts : List (PolySort SortName))
    (result : PolySort SortName) (rest : List Char) :
    (typingText a bound sorts result).toList ++ rest = a.written ++ (' ' :: ':' :: ' ' ::
      (quantifierText bound ++ mappingText (sorts.map PolySort.written) result.written ++
        rest)) := by
  simp only [typingText, String.toList_ofList, List.append_assoc]
  rfl

theorem toList_sortText (arity : Nat) (rest : List Char) :
    (sortText a arity).toList ++ rest = a.written ++ (' ' :: ':' :: ' ' ::
      (mappingText (List.replicate arity "$tType".toList) "$tType".toList ++ rest)) := by
  simp only [sortText, String.toList_ofList, List.append_assoc]
  rfl

/-- The declaration of the type of a symbol is read back. -/
theorem entry_ok_of_typingText {bound : List Var} {sorts : List (PolySort SortName)}
    {result : PolySort SortName} (hname : read unitName name = .ok n)
    (horigin : Option.Rel (fun text a => Read.provenance text = .ok a) text origin)
    (ha : a.WellFormed) (hbound : ∀ v ∈ bound, v.WellFormed)
    (hsorts : ∀ sort ∈ result :: sorts, sort.WellFormed ∧ ¬ sort.IsKind)
    (hdepth : 2 * PolySort.depthAll (result :: sorts) + 5 ≤ nestingAllowance ∨
      Read.entry (unitText language name "type" (typingText a bound sorts result) text) ≠
        .error (.aborted .tooDeep)) :
    Read.entry (unitText language name "type" (typingText a bound sorts result) text) =
      .ok (.unit ⟨n, .typing a (.ofSorts bound sorts result), origin⟩) := by
  refine entry_ok_of_declaration hname (by decide) horigin (fun hallows => ?_) hdepth
  rw [toList_typingText]
  refine reads_declaration_of_colon ha fun hatom hcolon => reads_optionalParens (fun hallows => ?_)
    hallows
  -- The line that ends the declaration is layout behind the type.
  have htype := writesType_written hbound (fun sort h => (hsorts sort h).1) (Nat.le_refl _)
    (skips_unitEnd text)
  exact reads_typing hatom hcolon htype (sortEnds_unitEnd text).1 (sortEnds_unitEnd text).2
    (fun sort h => (hsorts sort h).2) hallows

/-- The text of the sort of all sorts is one of its texts. -/
theorem covers_kind (hpos : 1 ≤ depth) (value : Unit) :
    Covers (Wrapped (fun _ => WritesKind) depth) (fun _ => "$tType".toList) value := by
  intro rest left hskips
  cases depth with
  | zero => exact absurd hpos (by decide)
  | succ depth => exact .inl ⟨rest, rfl, hskips⟩

/-- The text of a mapping of sorts of all sorts is one of its texts. -/
theorem maps_kinds (arity : Nat) (hskips : Skips rest left) :
    Maps (Wrapped fun _ => WritesKind) 2
      (mappingText (List.replicate arity "$tType".toList) "$tType".toList ++ rest)
      (List.replicate arity (), ()) left := by
  have hmaps : Maps (Wrapped fun _ => WritesKind) 2
      (mappingText ((List.replicate arity ()).map fun _ => "$tType".toList) "$tType".toList ++ rest)
      (List.replicate arity (), ()) left :=
    maps_mappingText (fun hle value _ => covers_kind hle value) hskips
  rw [List.map_replicate] at hmaps
  exact hmaps

/-- The declaration of a sort is read back. -/
theorem entry_ok_of_sortText (hname : read unitName name = .ok n)
    (horigin : Option.Rel (fun text a => Read.provenance text = .ok a) text origin)
    (ha : a.WellFormed) (arity : Nat) :
    Read.entry (unitText language name "type" (sortText a arity) text) =
      .ok (.unit ⟨n, .sort a arity, origin⟩) := by
  refine entry_ok_of_declaration hname (by decide) horigin (fun hallows => ?_)
    (.inl (by decide : 4 ≤ nestingAllowance))
  rw [toList_sortText]
  refine reads_declaration_of_colon ha fun hatom hcolon => reads_optionalParens (fun hallows => ?_)
    hallows
  have hreads := reads_sortDeclaration hatom hcolon (maps_kinds arity (skips_unitEnd text))
    (sortEnds_unitEnd text).1 (sortEnds_unitEnd text).2 hallows
  rw [List.length_replicate] at hreads
  exact hreads

/-- A unit with the canonical text of a declaration behind the role of types is read as the
    declaration: as that of a type if no sort is the sort of all sorts, and else as that of a
    sort. -/
theorem entry_ok_of_typeDeclaration (hname : read unitName name = .ok n)
    (horigin : Option.Rel (fun text a => Read.provenance text = .ok a) text origin)
    (ha : a.WellFormed) :
    (∀ (bound : List Var) (sorts : List (PolySort SortName)) (result : PolySort SortName),
      (∀ v ∈ bound, v.WellFormed) →
      (∀ sort ∈ result :: sorts, sort.WellFormed ∧ ¬ sort.IsKind) →
      (2 * PolySort.depthAll (result :: sorts) + 5 ≤ nestingAllowance ∨
        Read.entry (unitText language name "type" (typingText a bound sorts result) text) ≠
          .error (.aborted .tooDeep)) →
      Read.entry (unitText language name "type" (typingText a bound sorts result) text) =
        .ok (.unit ⟨n, .typing a (.ofSorts bound sorts result), origin⟩)) ∧
    ∀ arity, Read.entry (unitText language name "type" (sortText a arity) text) =
      .ok (.unit ⟨n, .sort a arity, origin⟩) :=
  ⟨fun _ _ _ hbound hsorts hdepth => entry_ok_of_typingText hname horigin ha hbound hsorts
    hdepth, fun arity => entry_ok_of_sortText hname horigin ha arity⟩

end

/-- A sort constructor with arguments, and the declaration of one. -/
theorem entry_ok_of_list :
    ∃ n, read unitName "1" = .ok n ∧ Atom.WellFormed ⟨"it's"⟩ ∧
      Read.entry "tff(1\n,type\n,'it\\'s' : !>[A: $tType] : ('list'(A) * $int) > A\n)." =
        .ok (.unit ⟨n, .typing ⟨"it's"⟩ (.ofSorts [⟨"A"⟩] [.application (.user ⟨"list"⟩)
          [.var ⟨"A"⟩], .application (.reserved (.standard .int)) []] (.var ⟨"A"⟩)), none⟩) ∧
      Read.entry "tff(1\n,type\n,'it\\'s' : ($tType * $tType) > $tType\n)." =
        .ok (.unit ⟨n, .sort ⟨"it's"⟩ 2, none⟩) := by
  have htyping : unitText .tff "1" "type" (typingText ⟨"it's"⟩ [⟨"A"⟩]
      [.application (.user ⟨"list"⟩) [.var ⟨"A"⟩], .application (.reserved (.standard .int)) []]
      (.var ⟨"A"⟩)) none =
        "tff(1\n,type\n,'it\\'s' : !>[A: $tType] : ('list'(A) * $int) > A\n)." := by decide +kernel
  have hsort : unitText .tff "1" "type" (sortText ⟨"it's"⟩ 2) none =
      "tff(1\n,type\n,'it\\'s' : ($tType * $tType) > $tType\n)." := by decide +kernel
  have hvar : Var.isValid "A" = true := by decide
  have ha : Atom.isValid "it's" = true := by decide
  rcases exists_ok_of_isOk (read unitName "1") (by decide +kernel) with ⟨n, hname⟩
  rcases entry_ok_of_typeDeclaration (a := ⟨"it's"⟩) hname .none ha with ⟨hreads, hreadsSort⟩
  refine ⟨n, hname, ha, htyping ▸ hreads _ _ _ ?_ ?_ (.inl (by decide)), hsort ▸ hreadsSort 2⟩
  · intro v hv
    rw [List.mem_singleton.mp hv]
    exact hvar
  · intro sort hsort
    simp only [List.mem_cons, List.not_mem_nil, or_false] at hsort
    rcases hsort with rfl | rfl | rfl
    · exact ⟨.var hvar, not_false⟩
    · refine ⟨.application (show Atom.isValid "list" = true by decide) fun sort hsort => ?_,
        fun h => nomatch h⟩
      rw [List.mem_singleton.mp hsort]
      exact .var hvar
    · exact ⟨.application trivial fun _ h => absurd h List.not_mem_nil, fun h => nomatch h⟩

/-- A constructor applied to itself as many times as the number says. -/
def nestedSort : Nat → PolySort SortName
  | 0 => .application (.user ⟨"f"⟩) []
  | n + 1 => .application (.user ⟨"f"⟩) [nestedSort n]

theorem wellFormed_nestedSort (n : Nat) :
    (nestedSort n).WellFormed ∧ ¬ (nestedSort n).IsKind := by
  have hname : Atom.isValid "f" = true := by decide
  induction n with
  | zero =>
      exact ⟨.application hname fun _ h => absurd h List.not_mem_nil, fun h => nomatch h⟩
  | succ n ih =>
      refine ⟨.application hname fun sort h => ?_, fun h => nomatch h⟩
      rw [List.mem_singleton.mp h]
      exact ih.1

theorem written_nestedSort_succ (n : Nat) (left : List Char) :
    (nestedSort (n + 1)).written ++ left =
      Atom.written ⟨"f"⟩ ++ ('(' :: ((nestedSort n).written ++ ')' :: left)) := by
  simp only [nestedSort, PolySort.written, PolySort.writtenAll, SortName.written, argumentList,
    parenthesized, commaSeparated, List.flatMap_nil, List.append_nil, List.append_assoc,
    List.cons_append, List.nil_append]

/-- The name of the constructor opens with its quote. -/
theorem head?_nestedSort (n : Nat) (left : List Char) :
    ((nestedSort n).written ++ left).head? = some '\x27' := by
  cases n with
  | zero => rfl
  | succ n =>
      rw [written_nestedSort_succ]
      rfl

theorem head?_nestedSort_ne (n : Nat) (left : List Char) {c : Char} (hc : c ≠ '\x27') :
    ((nestedSort n).written ++ left).head? ≠ some c := by
  rw [head?_nestedSort, ne_eq, Option.some.injEq]
  exact hc.symm

theorem significant_nestedSort (n : Nat) (left : List Char) :
    Significant ((nestedSort n).written ++ left) := by
  rcases List.head?_eq_some_iff.mp (head?_nestedSort n left) with ⟨rest, hrest⟩
  rw [hrest]
  exact significant_cons (by decide) (by decide) (by decide)

/-- Sorts in sorts are given up if they are more than the allowance has room for. -/
theorem givesUp_nestedSort {allowance n : Nat} (hle : allowance ≤ n) (left : List Char) :
    GivesUp .tooDeep (polySortArgument allowance) ((nestedSort n).written ++ left) := by
  induction n generalizing allowance left with
  | zero =>
      rw [Nat.le_zero.mp hle]
      rfl
  | succ n ih =>
      have hne := head?_nestedSort_ne (n + 1) left (c := '(') (by decide)
      rcases allowance with _ | _ | allowance
      · rfl
      · exact .ifOpens_of_ne hne rfl
      · -- One level takes two units of the allowance.
        have hinner := ih (Nat.le_trans (Nat.le_succ _) (Nat.le_of_succ_le_succ hle)) (')' :: left)
        refine .ifOpens_of_ne hne (.labeled _ (.orElse_of_misses (.map (.labeled _ (.bind
          (misses_lexeme (misses_word _ ?_))))) ?_))
        · rw [head?_nestedSort]
          rintro c ⟨⟩
          decide
        rw [written_nestedSort_succ]
        have hatom : Spells [.atom ⟨"f"⟩] (Atom.written ⟨"f"⟩ ++ ('(' :: ((nestedSort n).written ++
            ')' :: left))) ('(' :: ((nestedSort n).written ++ ')' :: left)) :=
          spells_singleton.mpr ⟨_, _, rfl,
            spelling_written (show Atom.isValid "f" = true by decide), .nil _⟩
        have hopening : SignAt "(" ('(' :: ((nestedSort n).written ++ ')' :: left))
            ((nestedSort n).written ++ ')' :: left) := ⟨_, rfl, .nil _⟩
        have hname := (reads_name (E := fun _ => False) DefinedSort rfl hatom
          (stops_of_sign hopening rfl (by decide)).tokenEnds).labeled "sort"
        refine .then hname.done (.bind (.ifOpens rfl ?_))
        exact .then (hopening.reads (E := fun _ => False) (significant_nestedSort n _)).done
          hinner.bind

/-- What is too deep without parentheses is too deep where there may be some. -/
theorem givesUp_optionalParens {α : Type} {p : Nat → Parser α} {text : List Char}
    {allowance : Nat} (hhead : text.head? ≠ some '(')
    (h : ∀ n, n < allowance → GivesUp .tooDeep (p n) text) :
    GivesUp .tooDeep (optionalParens p allowance) text := by
  cases allowance with
  | zero => rfl
  | succ n => exact .ifOpens_of_ne hhead (h n (Nat.lt_succ_self n))

theorem givesUp_nestedSignature {allowance n : Nat} (hle : allowance ≤ n) (left : List Char) :
    GivesUp .tooDeep (signature allowance) ((nestedSort n).written ++ left) := by
  have hquantifier : MissesUnless (fun _ => False) (typeQuantifier allowance)
      ((nestedSort n).written ++ left) :=
    misses_typeQuantifier (head?_nestedSort_ne n left (by decide))
  have hnone := (ReadsUnless.orElse_of_misses hquantifier (.pure [] _)).done
  refine .labeled _ (.then hnone (.bind (givesUp_optionalParens
    (head?_nestedSort_ne n left (by decide)) fun k hk => ?_)))
  exact .bind (.orElse (.bind (.orElse ((givesUp_nestedSort (by omega) left).map _))))

/-- The declaration of a sort is passed over, and that of a type is given up at the sort. -/
theorem givesUp_nestedTyping {a : Atom} (ha : a.WellFormed) {allowance n : Nat}
    (hle : allowance ≤ n) (left : List Char) :
    GivesUp .tooDeep (typeDeclaration allowance)
      (a.written ++ (' ' :: ':' :: ' ' :: ((nestedSort n).written ++ left))) := by
  let start := (nestedSort n).written ++ left
  have hstart : Significant start := significant_nestedSort n left
  have hhead : ∀ {c : Char}, c ≠ '\x27' → start.head? ≠ some c := head?_nestedSort_ne n left
  have hcolon : SignAt ":" (':' :: ' ' :: start) start := ⟨_, rfl, skips_space _⟩
  have hatom : Spells [.atom a] (a.written ++ (' ' :: ':' :: ' ' :: start)) (':' :: ' ' :: start) :=
    spells_singleton.mpr ⟨_, _, rfl, spelling_written ha, skips_space _⟩
  have hends := (stops_of_sign hcolon rfl (by decide)).tokenEnds
  have hkind : MissesKind 1 start :=
    .inl ⟨hhead (by decide), (misses_kind (hhead (by decide))).fails⟩
  refine .labeled _ (.orElse_of_misses (hkind.misses_sortDeclaration hatom hcolon hstart
    (.inr rfl)) ?_)
  refine .then (reads_atom hatom hends).done (.then (hcolon.reads hstart).done (.bind ?_))
  exact givesUp_optionalParens (hhead (by decide)) fun k hk =>
    givesUp_nestedSignature (by omega) left

/-- The declaration of the type of a constant is given up if the sort of the constant is nested
    too deeply. -/
theorem entry_of_nestedSort {language : Language} {name : String} {n : UnitName} {a : Atom}
    {text : Option String} {depth : Nat} (hname : read unitName name = .ok n) (ha : a.WellFormed)
    (hle : nestingAllowance ≤ depth) :
    Read.entry (unitText language name "type" (typingText a [] [] (nestedSort depth)) text) =
      .error (.aborted .tooDeep) := by
  let body := a.written ++ (' ' :: ':' :: ' ' ::
    ((nestedSort depth).written ++ '\n' :: unitEnd text))
  have hopens : body.head? = some '\x27' := rfl
  have hbody : Significant body := significant_cons (by decide) (by decide) (by decide)
  have hdeclaration : GivesUp .tooDeep
      (declaration (formula language nestingAllowance) nestingAllowance)
      ("type".toList ++ '\n' :: ',' :: body) := by
    refine .labeled _ (.orElse (.then (reads_typeRole _).done
      (.then (Reading.reads_operator "," (.nil _) hbody).done ?_)))
    refine givesUp_optionalParens ?_ fun n hn => givesUp_nestedTyping ha (by omega) _
    rw [hopens]
    decide
  have htext : (unitText language name "type" (typingText a [] [] (nestedSort depth)) text).toList =
      (Vocabulary.canonical language).toList ++ '(' :: (name.toList ++ '\n' :: ',' ::
        ("type".toList ++ '\n' :: ',' :: body)) := by
    rw [toList_unitText, toList_typingText]
    rfl
  refine read_of_givesUp (.nil _) (significant_unitText ..) ?_
  rw [htext]
  exact givesUp_entry_of_declaration hname (significant_word (by decide) _) hdeclaration

/-- The declaration of a constant of a sort that is nested more than ten thousand levels deep is
    not read back. -/
theorem entry_not_ok_of_nestedSort :
    (∀ v ∈ ([] : List Var), v.WellFormed) ∧
    (∀ sort ∈ [nestedSort 10000], sort.WellFormed ∧ ¬ sort.IsKind) ∧
    Read.entry (unitText .tff "n" "type" (typingText ⟨"a"⟩ [] [] (nestedSort 10000)) none) =
      .error (.aborted .tooDeep) := by
  have ha : Atom.isValid "a" = true := by decide
  rcases exists_ok_of_isOk (read unitName "n") (by decide +kernel) with ⟨n, hname⟩
  refine ⟨fun _ h => absurd h List.not_mem_nil, fun sort h => ?_,
    entry_of_nestedSort (a := ⟨"a"⟩) hname ha (by decide)⟩
  rw [List.mem_singleton.mp h]
  exact wellFormed_nestedSort 10000

end Writing

end Tptp
