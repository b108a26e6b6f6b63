import Tptp.Proofs.Embedding.Text
import Tptp.Proofs.Syntax.Term
import Tptp.Proofs.Writing.Canonical

/-!
# Reading Written Pieces Back

Pieces of text that are read back wherever they stand.

A piece stands in a larger text, in front of a sign that ends it or at the end of the
text. `ReadsBack` says that a parser reads a value from the piece and leaves what stands
behind, whatever that is, as long as it opens with one of the signs that are given. The
signs matter where a part of a piece is optional: without it the sign that it starts
with must not stand behind.

All of this is up to the allowance for nesting, which may be too little for the piece.

## Main definitions

* `EndsIn`: What may stand behind a piece.
* `Opens`: What a piece starts with.
* `ReadsBack`: A value is read from a piece.

## Theorems

* `ReadsBack.bind`, `ReadsBack.orElse`: By combinators.
* `ReadsBack.applied`, `ReadsBack.applied_pair`: Keywords with arguments.
* `readsBack_bracketList`, `readsBack_arguments`: Lists.
-/

namespace Tptp

namespace Writing

open Reading Parser Text Syntax

variable {α β : Type} {signs others text more left : List Char}

/-- The signs that stand behind pieces. -/
def separators : List Char := [',', ')', ']', ':']

/-- What stands behind a piece opens with one of the signs, if there is anything. -/
def EndsIn (signs left : List Char) : Prop :=
  ∀ c ∈ left.head?, c ∈ signs

/-- No layout stands at the start of a piece, and no parenthesis. -/
def Opens (text : List Char) : Prop :=
  ∃ c rest, text = c :: rest ∧
    (Text.isWordChar c || decide (c ∈ ['\x27', '$', '[', '-'])) = true

/-- The parser reads the value from the piece in front of such a sign, unless it gives up
    for nesting. -/
def ReadsBack (signs : List Char) (p : Parser α) (value : α) (text : List Char) : Prop :=
  ∀ ⦃left⦄, EndsIn signs left → ReadsUnless (· = .tooDeep) p (text ++ left) value left

theorem endsIn_cons {c : Char} (h : c ∈ signs) (left : List Char) : EndsIn signs (c :: left) := by
  intro d hd
  rw [List.head?_cons, Option.mem_some_iff] at hd
  exact hd ▸ h

theorem EndsIn.mono (h : EndsIn signs left) (hsub : signs ⊆ others) : EndsIn others left :=
  fun c hc => hsub (h c hc)

/-- A sign that is not among them does not stand behind a piece. -/
theorem EndsIn.head?_ne (h : EndsIn signs left) {c : Char} (hc : c ∉ signs) :
    left.head? ≠ some c :=
  fun hhead => hc (h c hhead)

/-- Where a separator follows a term ends. -/
theorem EndsIn.termEnds (h : EndsIn signs left) (hsub : signs ⊆ separators) : TermEnds left := by
  have hall : ∀ c ∈ separators, c ∈ stoppers := List.all_iff_forall_prop.mp (by decide)
  refine ⟨fun c hc => hall c (hsub (h c hc)), h.head?_ne fun hmem => ?_⟩
  exact absurd (hsub hmem) (by decide)

theorem EndsIn.significant (h : EndsIn signs left) (hsub : signs ⊆ separators) :
    Significant left :=
  (h.termEnds hsub).1.significant

/-- No layout stands in front of a piece. -/
theorem Opens.significant (h : Opens text) (left : List Char) : Significant (text ++ left) := by
  rcases h with ⟨c, rest, rfl, hc⟩
  have hne : ∀ d, (Text.isWordChar d || decide (d ∈ ['\x27', '$', '[', '-'])) = false → c ≠ d := by
    rintro d hd rfl
    exact absurd (hc.symm.trans hd) (by decide)
  refine significant_cons ?_ (hne '%' (by decide)) (hne '/' (by decide))
  rcases Bool.or_eq_true_iff.mp hc with hword | hmem
  · exact Text.not_isBlank_of_isWordChar c hword
  · have hall : ∀ d ∈ ['\x27', '$', '[', '-'], Text.isBlank d = false :=
      List.all_iff_forall_prop.mp (by decide)
    exact hall c (of_decide_eq_true hmem)

/-- No parenthesis stands in front of a piece. -/
theorem Opens.head?_ne (h : Opens text) (left : List Char) : (text ++ left).head? ≠ some '(' := by
  rcases h with ⟨c, rest, rfl, hc⟩
  rw [List.cons_append, List.head?_cons, ne_eq, Option.some.injEq]
  rintro rfl
  exact absurd hc (by decide)

theorem Opens.append (h : Opens text) (more : List Char) : Opens (text ++ more) := by
  rcases h with ⟨c, rest, rfl, hc⟩
  exact ⟨c, rest ++ more, rfl, hc⟩

/-- What stands in parentheses behind a keyword is read if it is read there. -/
theorem reads_tagged {E : Abort → Prop} {tag : String} {p : Parser α} {inner : List Char}
    {value : α} (h : ReadsUnless E (Parser.parens p) ('(' :: inner) value left) :
    ReadsUnless E (Parser.tagged tag p) (tag.toList ++ '(' :: inner) value left := by
  refine (reads_lexeme (reads_wholeWord _ _ fun c hc => ?_) (.nil _) ?_).bind h
  · rw [List.head?_cons, Option.mem_some_iff] at hc
    exact hc ▸ by decide
  · exact significant_cons (by decide) (by decide) (by decide)

namespace ReadsBack

variable {p q : Parser α} {value : α}

/-- There may be less signs that can stand behind. -/
theorem mono (h : ReadsBack others p value text) (hsub : signs ⊆ others) :
    ReadsBack signs p value text :=
  fun _ hleft => h (hleft.mono hsub)

theorem pure (a : α) : ReadsBack signs (pure a) a [] :=
  fun left _ => ReadsUnless.pure a left

theorem map (f : α → β) (h : ReadsBack signs p value text) :
    ReadsBack signs (f <$> p) (f value) text :=
  fun _ hleft => (h hleft).map f

theorem labeled (label : String) (h : ReadsBack signs p value text) :
    ReadsBack signs (Parser.labeled label p) value text :=
  fun _ hleft => (h hleft).labeled label

theorem orElse (h : ReadsBack signs p value text) : ReadsBack signs (p <|> q) value text :=
  fun _ hleft => (h hleft).orElse

/-- The first alternative is passed over, whatever stands behind the piece. -/
theorem orElse_of_misses (hp : ∀ left, MissesUnless (· = .tooDeep) p (text ++ left))
    (h : ReadsBack signs q value text) : ReadsBack signs (p <|> q) value text :=
  fun left hleft => .orElse_of_misses (hp left) (h hleft)

/-- Of two pieces the second one stands behind the first, or what follows it. -/
theorem bind {next : α → Parser β} {result : β} (hp : ReadsBack others p value text)
    (h : ReadsBack signs (next value) result more)
    (hmore : ∀ {left}, EndsIn signs left → EndsIn others (more ++ left)) :
    ReadsBack signs (p >>= next) result (text ++ more) := by
  intro left hleft
  rw [List.append_assoc]
  exact (hp (hmore hleft)).bind (h hleft)

/-- The second of two pieces opens with a separator. -/
theorem bind_cons {next : α → Parser β} {result : β} {c : Char}
    (hp : ReadsBack others p value text) (h : ReadsBack signs (next value) result (c :: more))
    (hc : c ∈ others) : ReadsBack signs (p >>= next) result (text ++ c :: more) :=
  hp.bind h fun _ => endsIn_cons hc _

/-- A sign in front of a piece. -/
theorem operator {sign : String} {c : Char} (hsign : sign.toList = [c])
    (hp : ReadsBack signs p value text) (hopens : Opens text) :
    ReadsBack signs (Parser.operator sign >>= fun _ => p) value (c :: text) := by
  intro left hleft
  have hread := Reading.reads_operator (E := (· = .tooDeep)) sign (.nil (text ++ left))
    (hopens.significant left)
  rw [hsign] at hread
  exact hread.bind (hp hleft)

/-- A piece behind a comma. -/
theorem comma (hp : ReadsBack signs p value text) (hopens : Opens text) :
    ReadsBack signs (Parser.comma p) value (',' :: text) :=
  hp.operator rfl hopens

theorem maybeComma (hp : ReadsBack signs p value text) (hopens : Opens text) :
    ReadsBack signs (Parser.maybeComma p) (some value) (',' :: text) :=
  ((hp.comma hopens).map some).orElse

/-- Without a comma behind it the optional part is absent. -/
theorem maybeComma_none (h : ',' ∉ signs) : ReadsBack signs (Parser.maybeComma p) none [] := by
  intro left hleft
  refine .orElse_of_misses (.map (.bind ?_)) (.pure none left)
  exact misses_operator (c := ',') rfl (hleft.head?_ne h)

/-- A piece in parentheses. -/
theorem parens (hp : ReadsBack [')'] p value text) (hopens : Opens text)
    (hsub : signs ⊆ separators) :
    ReadsBack signs (Parser.parens p) value ('(' :: (text ++ [')'])) := by
  intro left hleft
  rw [List.cons_append, List.append_assoc]
  exact Reading.reads_parens ⟨_, rfl, .nil _⟩ (hopens.significant _)
    (hp (endsIn_cons (List.mem_singleton.mpr rfl) left)) ⟨_, rfl, .nil _⟩ (hleft.significant hsub)

/-- A piece in parentheses behind a keyword. -/
theorem tagged {tag : String} (hp : ReadsBack [')'] p value text) (hopens : Opens text)
    (hsub : signs ⊆ separators) :
    ReadsBack signs (Parser.tagged tag p) value (tag.toList ++ '(' :: (text ++ [')'])) := by
  intro left hleft
  rw [List.append_assoc]
  exact reads_tagged (hp.parens hopens hsub hleft)

/-- A keyword with an argument and others, each of which has a comma in front. -/
theorem applied_cons {tag : String} {texts : List (List Char)}
    (hp : ReadsBack [')'] p value (text ++ texts.flatMap (',' :: ·))) (hopens : Opens text)
    (hsub : signs ⊆ separators) :
    ReadsBack signs (Parser.tagged tag p) value (Text.applied tag (text :: texts)) :=
  hp.tagged (hopens.append _) hsub

/-- A keyword with one argument. -/
theorem applied {tag : String} (hp : ReadsBack [')'] p value text) (hopens : Opens text)
    (hsub : signs ⊆ separators) :
    ReadsBack signs (Parser.tagged tag p) value (Text.applied tag [text]) := by
  refine applied_cons ?_ hopens hsub
  rw [List.flatMap_nil, List.append_nil]
  exact hp

/-- A keyword with two arguments. -/
theorem applied_pair {tag : String} (hp : ReadsBack [')'] p value (text ++ ',' :: more))
    (hopens : Opens text) (hsub : signs ⊆ separators) :
    ReadsBack signs (Parser.tagged tag p) value (Text.applied tag [text, more]) := by
  refine applied_cons ?_ hopens hsub
  rw [List.flatMap_singleton]
  exact hp

end ReadsBack

section

variable {p : Parser α} {pieces : List (α × List Char)}

/-- Where items with commas in front end, or another one follows. -/
theorem endsIn_items (hleft : EndsIn signs left) (texts : List (List Char)) :
    EndsIn (',' :: signs) (texts.flatMap (',' :: ·) ++ left) := by
  cases texts with
  | nil => exact hleft.mono (List.subset_cons_self _ _)
  | cons first texts => exact endsIn_cons List.mem_cons_self _

/-- The pieces of a list are read back in front of the signs of the list, and open with no
    layout. -/
def AreItems (signs : List Char) (p : Parser α) (pieces : List (α × List Char)) : Prop :=
  ∀ piece ∈ pieces, ReadsBack (',' :: signs) p piece.1 piece.2 ∧ Opens piece.2

/-- Items with commas in front are read by a loop that ends where there is no comma. -/
theorem readsBack_items {loop : Parser (List α)} (h : AreItems signs p pieces)
    (hsigns : ',' ∉ signs)
    (hnil : ∀ {left}, left.head? ≠ some ',' → ReadsUnless (· = .tooDeep) loop left [] left)
    (hcons : ∀ {text middle left value values}, text.head? = some ',' →
      ReadsUnless (· = .tooDeep) (Parser.comma p) text value middle →
      middle.length < text.length → ReadsUnless (· = .tooDeep) loop middle values left →
      ReadsUnless (· = .tooDeep) loop text (value :: values) left) :
    ReadsBack signs loop (pieces.map Prod.fst) ((pieces.map Prod.snd).flatMap (',' :: ·)) := by
  intro left hleft
  -- Behind an item stands the comma of the next one, or what stands behind the list.
  induction pieces with
  | nil => exact hnil (hleft.head?_ne hsigns)
  | cons piece pieces ih =>
      rcases h piece List.mem_cons_self with ⟨hpiece, hopens⟩
      rw [List.map_cons, List.map_cons, List.flatMap_cons, List.append_assoc]
      refine hcons rfl (hpiece.comma hopens (endsIn_items hleft _)) ?_
        (ih fun other hother => h other (List.mem_cons_of_mem _ hother))
      simp only [List.cons_append, List.length_cons, List.length_append]
      omega

theorem readsBack_many (h : AreItems signs p pieces) (hsigns : ',' ∉ signs) :
    ReadsBack signs (many (Parser.operator "," *> p)) (pieces.map Prod.fst)
      ((pieces.map Prod.snd).flatMap (',' :: ·)) :=
  readsBack_items h hsigns
    (fun hne => .many_nil (.bind (misses_operator (c := ',') rfl hne)))
    fun _ hp hlt hloop => .many_cons hp hlt hloop

theorem readsBack_repeatWhile (h : AreItems signs p pieces) (hsigns : ',' ∉ signs) :
    ReadsBack signs (repeatWhile (·.opensWith ',') (Parser.comma p)) (pieces.map Prod.fst)
      ((pieces.map Prod.snd).flatMap (',' :: ·)) := by
  refine readsBack_items h hsigns (fun hne => .repeatWhile_nil ?_)
    fun hhead hp hlt hloop => .repeatWhile_cons (opensWith_ofList_iff.mpr hhead) hp hlt hloop
  exact Bool.eq_false_iff.mpr (mt opensWith_ofList_iff.mp hne)

/-- One item, and others with commas in front. -/
theorem readsBack_commaSeparated {loop : Parser (List α)} {piece : α × List Char}
    (h : AreItems signs p (piece :: pieces))
    (hloop : ReadsBack signs loop (pieces.map Prod.fst)
      ((pieces.map Prod.snd).flatMap (',' :: ·))) :
    ReadsBack signs (p >>= fun first => loop >>= fun others => pure (first :: others))
      ((piece :: pieces).map Prod.fst) (commaSeparated ((piece :: pieces).map Prod.snd)) :=
  (h piece List.mem_cons_self).1.bind (hloop.map (piece.1 :: ·)) fun hleft => endsIn_items hleft _

theorem opens_commaSeparated {piece : α × List Char} (h : AreItems signs p (piece :: pieces)) :
    Opens (commaSeparated ((piece :: pieces).map Prod.snd)) :=
  (h piece List.mem_cons_self).2.append _

theorem readsBack_sepBy1 (h : AreItems signs p pieces) (hne : pieces ≠ []) (hsigns : ',' ∉ signs) :
    ReadsBack signs (sepBy1 p (Parser.operator ",")) (pieces.map Prod.fst)
      (commaSeparated (pieces.map Prod.snd)) := by
  rcases pieces with _ | ⟨piece, pieces⟩
  · exact absurd rfl hne
  · refine readsBack_commaSeparated h (readsBack_many (fun other hother => ?_) hsigns)
    exact h other (List.mem_cons_of_mem _ hother)

/-- What stands between brackets is read back between them. -/
theorem readsBack_brackets {q : Parser β} {value : β} (hq : ReadsBack [']'] q value text)
    (hstart : ∀ left, Significant (text ++ ']' :: left)) (hsub : signs ⊆ separators) :
    ReadsBack signs (brackets q) value ('[' :: (text ++ [']'])) := by
  intro left hleft
  rw [List.cons_append, List.append_assoc]
  refine .labeled _ ((Reading.reads_operator "[" (.nil _) (hstart left)).bind ?_)
  refine (hq (endsIn_cons (List.mem_singleton.mpr rfl) left)).bind ?_
  exact (Reading.reads_operator "]" (.nil _) (hleft.significant hsub)).bind (.pure _ _)

theorem readsBack_bracketList1 (h : AreItems [']'] p pieces) (hne : pieces ≠ [])
    (hsub : signs ⊆ separators) :
    ReadsBack signs (bracketList1 p) (pieces.map Prod.fst) (bracketed (pieces.map Prod.snd)) := by
  refine .labeled _ (readsBack_brackets (readsBack_sepBy1 h hne (by decide)) (fun left => ?_) hsub)
  rcases pieces with _ | ⟨piece, pieces⟩
  · exact absurd rfl hne
  · exact (opens_commaSeparated h).significant _

/-- A list may be empty, if what it is a list of is not found in front of its end. -/
theorem readsBack_bracketList (h : AreItems [']'] p pieces)
    (hnil : ∀ {left}, EndsIn [']'] left → MissesUnless (· = .tooDeep) p left)
    (hsub : signs ⊆ separators) :
    ReadsBack signs (bracketList p) (pieces.map Prod.fst) (bracketed (pieces.map Prod.snd)) := by
  rcases pieces with _ | ⟨piece, pieces⟩
  -- With no piece in it the list ends where its first item is looked for.
  · refine .labeled _ (readsBack_brackets (fun left hleft => ?_) (fun left => ?_) hsub)
    · exact .orElse_of_misses (.bind (hnil hleft)) (.pure _ _)
    · exact significant_cons (by decide) (by decide) (by decide)
  · refine .labeled _ (readsBack_brackets (.orElse (readsBack_sepBy1 h (List.cons_ne_nil _ _)
      (by decide))) (fun left => ?_) hsub)
    exact (opens_commaSeparated h).significant _

section

variable {write : α → List Char} {values : List α}

/-- Values that all have a text are pieces of a list. -/
theorem areItems_map (h : ∀ value ∈ values, ReadsBack (',' :: signs) p value (write value) ∧
    Opens (write value)) : AreItems signs p (values.map fun value => (value, write value)) := by
  intro piece hpiece
  rcases List.mem_map.mp hpiece with ⟨value, hvalue, rfl⟩
  exact h value hvalue

theorem map_fst_pairs : (values.map fun value => (value, write value)).map Prod.fst = values :=
  (List.map_map ..).trans (List.map_id values)

theorem map_snd_pairs :
    (values.map fun value => (value, write value)).map Prod.snd = values.map write :=
  List.map_map ..

end

/-- Arguments in parentheses may be missing, where no parenthesis follows. -/
theorem readsBack_arguments (h : AreItems [')'] p pieces) (hsub : signs ⊆ separators) :
    ReadsBack signs (arguments p) (pieces.map Prod.fst) (argumentList (pieces.map Prod.snd)) := by
  intro left hleft
  rcases pieces with _ | ⟨piece, pieces⟩
  · exact reads_ifOpens_of_ne (hleft.termEnds hsub).2 (.pure [] left)
  · have hitems : AreItems [')'] p pieces := fun other hother =>
      h other (List.mem_cons_of_mem _ hother)
    have hlist := readsBack_commaSeparated h (readsBack_repeatWhile hitems (by decide))
    have hopening := (opens_commaSeparated h).significant (')' :: left)
    rw [arguments_eq]
    refine reads_ifOpens rfl ?_
    change ReadsUnless _ _ ('(' :: (commaSeparated _ ++ [')']) ++ left) _ _
    rw [List.cons_append, List.append_assoc]
    refine (Reading.reads_operator "(" (.nil _) hopening).bind ?_
    refine (hlist (endsIn_cons (List.mem_singleton.mpr rfl) left)).bind ?_
    exact (Reading.reads_operator ")" (.nil _) (hleft.significant hsub)).bind (.pure _ _)

end

end Writing

end Tptp
