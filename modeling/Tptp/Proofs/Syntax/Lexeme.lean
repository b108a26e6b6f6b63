import Tptp.Proofs.Syntax.Token
import Tptp.Proofs.Yields.Term

/-!
# Parsers of Tokens

The productions of single tokens, tied to the spellings of tokens from both sides.

A production of a token reads nothing but spellings of it. It reads every spelling
back if what is left does not go on with the token. In the grammar of formulas a
token that could go on is always followed by one of a few signs or by the end of
the text, and `Stops` says that one of these follows.

## Main definitions

* `Stops`: What is left goes on with no token.
* `TokenEnds`: What is left goes on with no name.
* `Token.name?`: The name that a token is.

## Theorems

* `relates_operator`, `reads_operator`, `misses_operator`: Marks.
* `relates_member`, `reads_sign`, `reads_connective`: Members of vocabularies.
* `relates_name`, `reads_name`, `misses_name`: Names.
* `relates_var`, `reads_var`, `reads_distinctObject`, `reads_numberToken`: Other
  terms of one token.
-/

namespace Tptp

namespace Syntax

open Reading Parser Grammar

variable {E : Abort → Prop} {text left : List Char}

/-- The characters that may follow a token which could go on. -/
def stoppers : List Char :=
  ['(', ')', '[', ']', ',', ':', '=', '!', '&', '|', '<', '~']

/-- What is left goes on with no token. -/
def Stops (text : List Char) : Prop :=
  ∀ c ∈ text.head?, c ∈ stoppers

/-- The characters that may follow have what all of them have. -/
theorem Stops.all {P : Char → Bool} (h : Stops text) (hP : stoppers.all P = true) :
    ∀ c ∈ text.head?, P c = true :=
  fun c hc => List.all_eq_true.mp hP c (h c hc)

theorem Stops.numberEnds (h : Stops text) : NumberEnds text := by
  intro c hc
  have hall := h.all (P := fun c => !Text.isWordChar c && c != '.') (by decide) c hc
  rw [Bool.and_eq_true, Bool.not_eq_true', bne_iff_ne] at hall
  exact hall

theorem Stops.wordEnds (h : Stops text) : WordEnds text :=
  fun c hc => (h.numberEnds c hc).1

theorem Stops.ne_slash (h : Stops text) : text.head? ≠ some '/' :=
  fun hhead => absurd (h '/' hhead) (by decide)

theorem Stops.significant (h : Stops text) : Significant text := by
  rcases text with _ | ⟨c, text⟩
  · exact significant_nil
  · have hall := h.all (P := fun c => !Text.isBlank c && (c != '%' && c != '/')) (by decide) c rfl
    rw [Bool.and_eq_true, Bool.and_eq_true, Bool.not_eq_true', bne_iff_ne, bne_iff_ne] at hall
    exact significant_cons hall.1 hall.2.1 hall.2.2

/-- What is left goes on with no word and starts with no layout. -/
structure TokenEnds (text : List Char) : Prop where
  wordEnds : WordEnds text
  significant : Significant text

theorem Stops.tokenEnds (h : Stops text) : TokenEnds text :=
  ⟨h.wordEnds, h.significant⟩

/-- A relation between single tokens and texts. -/
theorem spelled_singleton {α : Type} {token : α → Token} {value : α} {spelling rest : List Char}
    (h : Spelling (token value) spelling) (hskips : Skips rest left) :
    Spelled (fun tokens value => tokens = [token value]) (spelling ++ rest) value left :=
  ⟨_, rfl, spells_singleton.mpr ⟨spelling, rest, rfl, h, hskips⟩⟩

section

variable {m : Mark} {sign : String}

theorem reads_operator (h : sign.toList = [m.char]) (hspells : Spells [.mark m] text left)
    (hleft : Significant left) : ReadsUnless E (operator sign) text sign left := by
  rcases spells_singleton.mp hspells with ⟨spelling, rest, rfl, hspelling, hskips⟩
  cases hspelling
  rw [← h]
  exact reads_lexeme (reads_expect _ _ _) hskips hleft

theorem misses_operator {c : Char} (h : sign.toList = [c]) (hhead : text.head? ≠ some c) :
    MissesUnless E (operator sign) text := by
  refine misses_lexeme (misses_expect ?_)
  rw [h]
  rintro ⟨rest, rfl⟩
  exact hhead rfl

end

section

variable {V : Type} [Vocabulary V]

/-- A member whose name is the longest that may stand at its place. -/
theorem reads_member {v : V} {rest : List Char}
    (hword : (Vocabulary.canonical v).toList.getLast?.any Text.isWordChar = true → WordEnds rest)
    (hlongest : ∀ w : V, (Vocabulary.canonical w).toList <+: (Vocabulary.canonical v).toList ++ rest →
      (Vocabulary.canonical w).length ≤ (Vocabulary.canonical v).length)
    (hskips : Skips rest left) (hleft : Significant left) :
    ReadsUnless E (member V) ((Vocabulary.canonical v).toList ++ rest) v left :=
  reads_lexeme (reads_named hword hlongest) hskips hleft

end

theorem reads_sign {s : Sign} (h : Spells [.sign s] text left) (hleft : Significant left) :
    ReadsUnless E (member Sign) text s left := by
  rcases spells_singleton.mp h with ⟨_, rest, rfl, hspelling, hskips⟩
  cases hspelling
  refine reads_member (fun hword => ?_) (fun w hw => ?_) hskips hleft
  · cases s <;> exact absurd hword (by decide)
  · cases s <;> cases w
    · exact Nat.le_refl _
    · exact absurd (List.cons_prefix_cons.mp hw).1 (by decide)
    · decide
    · exact Nat.le_refl _

theorem reads_quantifier {q : Quantifier} (h : Spells [.quantifier q] text left)
    (hleft : Significant left) : ReadsUnless E (member Quantifier) text q left := by
  rcases spells_singleton.mp h with ⟨_, rest, rfl, hspelling, hskips⟩
  cases hspelling
  refine reads_member (fun hword => ?_) (fun w hw => ?_) hskips hleft
  · cases q <;> exact absurd hword (by decide)
  · cases q <;> cases w <;> decide

theorem reads_modality {m : Modality} (h : Spells [.modality m] text left) (hleft : Stops left) :
    ReadsUnless E (member Modality) text m left := by
  rcases spells_singleton.mp h with ⟨_, rest, rfl, hspelling, hskips⟩
  cases hspelling
  refine reads_member (fun _ => wordEnds_of_skips hskips hleft.wordEnds) (fun w hw => ?_) hskips
    hleft.significant
  cases m <;> cases w <;> decide

/-- What one connective has more than another one that it starts with is an arrow
    head. -/
theorem head?_drop_connective (c d : Connective)
    (h : (Vocabulary.canonical c).toList.isPrefixOf (Vocabulary.canonical d).toList = true) :
    ((Vocabulary.canonical d).toList.drop (Vocabulary.canonical c).toList.length).head? =
        some '>' ∨
      (Vocabulary.canonical d).toList.length ≤ (Vocabulary.canonical c).toList.length := by
  revert h
  cases c <;> cases d <;> decide

/-- No longer connective stands where one is not followed by an arrow head. -/
theorem length_le_of_prefix {c d : Connective} {rest : List Char}
    (h : (Vocabulary.canonical d).toList <+: (Vocabulary.canonical c).toList ++ rest)
    (hrest : rest.head? ≠ some '>') :
    (Vocabulary.canonical d).toList.length ≤ (Vocabulary.canonical c).toList.length := by
  rcases Nat.le_total (Vocabulary.canonical d).toList.length
    (Vocabulary.canonical c).toList.length with hle | hle
  · exact hle
  · have hprefix := List.prefix_of_prefix_length_le (List.prefix_append _ rest) h hle
    rcases head?_drop_connective c d (List.isPrefixOf_iff_prefix.mpr hprefix) with hhead | hle
    · rcases hprefix with ⟨more, hmore⟩
      rw [← hmore, List.drop_left] at hhead
      rw [← hmore, List.prefix_append_right_inj] at h
      rcases List.head?_eq_some_iff.mp hhead with ⟨tail, rfl⟩
      rcases h with ⟨others, rfl⟩
      exact absurd rfl hrest
    · exact hle

theorem reads_connective {c : Connective} (h : Spells [.connective c] text left)
    (hleft : Significant left) (harrow : left.head? ≠ some '>') :
    ReadsUnless E (member Connective) text c left := by
  rcases spells_singleton.mp h with ⟨_, rest, rfl, hspelling, hskips⟩
  cases hspelling
  have hrest : rest.head? ≠ some '>' := by
    rcases hskips.eq_or_head with rfl | ⟨d, hd, hlayout⟩
    · exact harrow
    · rw [hd]
      rintro ⟨⟩
      exact absurd hlayout (by decide)
  refine reads_member (fun hword => ?_) (fun w hw => ?_) hskips hleft
  · cases c <;> exact absurd hword (by decide)
  · rw [← String.length_toList, ← String.length_toList]
    exact length_le_of_prefix hw hrest

/-- No member is read where no name of one starts. -/
theorem misses_member {V : Type} [Vocabulary V] {opens : Char → Bool}
    (hopens : ∀ v : V, ∃ c rest, (Vocabulary.canonical v).toList = c :: rest ∧ opens c = true)
    (h : ∀ c ∈ text.head?, opens c = false) : MissesUnless E (member V) text := by
  refine misses_lexeme (misses_named fun v hprefix => ?_)
  rcases hopens v with ⟨c, rest, hv, hc⟩
  rw [hv] at hprefix
  rcases hprefix with ⟨tail, rfl⟩
  rw [h c rfl] at hc
  exact Bool.false_ne_true hc

theorem misses_sign (h : ∀ c ∈ text.head?, (c == '=' || c == '!') = false) :
    MissesUnless E (member Sign) text :=
  misses_member (fun s => (Spelling.sign s).exists_cons) h

theorem misses_connective
    (h : ∀ c ∈ text.head?, (c == '&' || c == '|' || c == '=' || c == '<' || c == '~') = false) :
    MissesUnless E (member Connective) text :=
  misses_member (fun c => (Spelling.connective c).exists_cons) h

/-- A lower word is read from its letters. -/
theorem relates_lowerWord : Relates lowerWord fun text value left =>
    text = value.toList ++ left ∧ Text.isLowerWord value.toList = true := by
  refine (relates_word _ _).mono ?_
  rintro text value left ⟨c, chars, rfl, hvalue, hfirst, hchars, -⟩
  rw [hvalue]
  exact ⟨rfl, by rw [Text.isLowerWord, hfirst, hchars, Bool.and_self]⟩

theorem reads_lowerWord {value : String} (h : Text.isLowerWord value.toList = true)
    (hleft : WordEnds left) : ReadsUnless E lowerWord (value.toList ++ left) value left := by
  rcases hvalue : value.toList with _ | ⟨c, chars⟩
  · exact absurd h (by rw [hvalue]; exact Bool.false_ne_true)
  · rw [hvalue, Text.isLowerWord, Bool.and_eq_true] at h
    rw [← hvalue]
    exact reads_word _ hvalue h.1 h.2 hleft

/-- An atom is read from a spelling of it. -/
theorem relates_atom : Relates atom (Spelled fun tokens a => tokens = [.atom a]) := by
  have htext : Relates (quoted '\x27' <|> lowerWord) fun text value left =>
      ∀ a : Atom, a.text = value → value.isEmpty = false →
        ∃ spelling, text = spelling ++ left ∧ Spelling (.atom a) spelling := by
    refine .orElse ((relates_quoted _).mono ?_) (relates_lowerWord.mono ?_)
    · rintro text value left ⟨chars, rfl, hspells⟩ a rfl hne
      exact ⟨_, rfl, .quotedAtom hne hspells⟩
    · rintro text value left ⟨rfl, hword⟩ a rfl -
      exact ⟨_, rfl, .word hword⟩
  refine .labeled _ ⟨fun {text value after} h => ?_⟩
  rcases bind_done h with ⟨found, _, hfound, hbuild⟩
  rcases (relates_lexeme htext).sound hfound with ⟨left, rfl, middle, hspelling, hskips, -⟩
  split at hbuild
  · exact absurd hbuild (by simp only [outcome_fail, reduceCtorEq, not_false_eq_true])
  · next hne =>
      rw [Atom.ofText] at hbuild
      split at hbuild
      · rw [build, outcome_pure, Outcome.done.injEq] at hbuild
        rw [Bool.not_eq_true] at hne
        rcases hspelling ⟨found⟩ rfl hne with ⟨spelling, rfl, hspells⟩
        rw [← hbuild.1]
        exact ⟨left, hbuild.2.symm, spelled_singleton hspells hskips⟩
      · exact absurd hbuild (by simp only [build, outcome_abort, reduceCtorEq, not_false_eq_true])

/-- What stands between quotes is printable. -/
theorem isPrintable_of_spells {quote : Char} (hquote : Text.isPrintable quote = true)
    (hback : quote ≠ '\\') {chars value : List Char} (h : Text.Quoted.Spells quote chars value) :
    value.all Text.isPrintable = true :=
  isPrintable_of_decode hquote (Text.Quoted.decode_of_spells hback h [])

/-- What spells an atom names one. -/
theorem isValid_of_spelling {a : Atom} {spelling : List Char} (h : Spelling (.atom a) spelling) :
    a.text.isEmpty = false ∧ Atom.isValid a.text = true := by
  have hnil : a.text.isEmpty = false → a.text.toList.isEmpty = false := by
    intro hne
    rw [List.isEmpty_eq_false_iff]
    intro hnil
    rw [String.toList_eq_nil_iff] at hnil
    rw [hnil] at hne
    exact absurd hne (by decide)
  cases h with
  | word h =>
      have hne : a.text.isEmpty = false := by
        rw [← Bool.not_eq_true]
        intro hempty
        rw [String.isEmpty_iff.mp hempty] at h
        exact absurd h (by decide)
      exact ⟨hne, by rw [Atom.isValid, hnil hne, all_isPrintable_of_isLowerWord h]; rfl⟩
  | quotedAtom hne h =>
      refine ⟨hne, ?_⟩
      rw [Atom.isValid, hnil hne, isPrintable_of_spells (by decide) (by decide) h]
      rfl

/-- An atom is read back from its spellings. -/
theorem reads_atom {a : Atom} (h : Spells [.atom a] text left) (hleft : TokenEnds left) :
    ReadsUnless E atom text a left := by
  rcases spells_singleton.mp h with ⟨spelling, rest, rfl, hspelling, hskips⟩
  rcases isValid_of_spelling hspelling with ⟨hne, hvalid⟩
  have hword := wordEnds_of_skips hskips hleft.wordEnds
  have htext : ReadsUnless E (quoted '\x27' <|> lowerWord) (spelling ++ rest) a.text rest := by
    cases hspelling with
    | word hlower =>
        refine .orElse_of_misses (misses_quoted fun hhead => ?_) (reads_lowerWord hlower hword)
        rcases htext : a.text.toList with _ | ⟨c, chars⟩
        · exact absurd hlower (by rw [htext]; exact Bool.false_ne_true)
        · rw [htext] at hlower hhead
          rw [Option.some.inj hhead, Text.isLowerWord, Bool.and_eq_true] at hlower
          exact absurd hlower.1 (by decide)
    | quotedAtom _ hspells => exact .orElse (reads_quoted (by decide) hspells rest)
  refine .labeled _ ((reads_lexeme htext hskips hleft.significant).bind ?_)
  rw [hne, if_neg Bool.false_ne_true, Atom.ofText, if_pos hvalid]
  exact .pure a left

/-- An atom opens with a quote or a lower case letter. -/
theorem misses_atom (h : ∀ c ∈ text.head?, c ≠ '\x27' ∧ c.isLower = false) :
    MissesUnless E atom text := by
  refine .labeled _ (.bind (misses_lexeme (.orElse (misses_quoted fun hhead => ?_) ?_)))
  · exact (h _ hhead).1 rfl
  · exact misses_word _ fun c hc => (h c hc).2

/-- A variable is read from a spelling of it. -/
theorem relates_var : Relates var (Spelled fun tokens v => tokens = [.var v]) := by
  refine .labeled _ ⟨fun {text value after} h => ?_⟩
  rcases bind_done h with ⟨found, _, hfound, hbuild⟩
  rcases (relates_lexeme (relates_word _ _)).sound hfound with
    ⟨left, rfl, middle, ⟨c, chars, rfl, hvalue, hfirst, hchars, -⟩, hskips, -⟩
  rw [Var.ofText] at hbuild
  split at hbuild
  · next hvalid =>
      rw [build, outcome_pure, Outcome.done.injEq] at hbuild
      rw [← hbuild.1, ← List.cons_append, ← hvalue]
      exact ⟨left, hbuild.2.symm, spelled_singleton (.var hvalid) hskips⟩
  · exact absurd hbuild (by simp only [build, outcome_abort, reduceCtorEq, not_false_eq_true])

/-- A variable is read back. -/
theorem reads_var {v : Var} (h : Spells [.var v] text left) (hleft : TokenEnds left) :
    ReadsUnless E var text v left := by
  rcases spells_singleton.mp h with ⟨_, rest, rfl, hspelling, hskips⟩
  cases hspelling with
  | var hupper =>
      have hword : ReadsUnless E upperWord (v.text.toList ++ rest) v.text rest := by
        rcases htext : v.text.toList with _ | ⟨c, chars⟩
        · exact absurd hupper (by rw [htext]; exact Bool.false_ne_true)
        · rw [htext, Text.isUpperWord, Bool.and_eq_true] at hupper
          rw [← htext]
          exact reads_word _ htext hupper.1 hupper.2
            (wordEnds_of_skips hskips hleft.wordEnds)
      refine .labeled _ ((reads_lexeme hword hskips hleft.significant).bind ?_)
      rw [Var.ofText, if_pos (show Var.isValid v.text = true from hupper)]
      exact .pure v left

/-- A distinct object is read back from its spellings. -/
theorem reads_distinctObject {d : DistinctObject} (h : Spells [.distinct d] text left)
    (hleft : Stops left) : ReadsUnless E distinctObject text d left := by
  rcases spells_singleton.mp h with ⟨_, rest, rfl, hspelling, hskips⟩
  cases hspelling with
  | distinct hspells =>
      refine .labeled _
        ((reads_lexeme (reads_quoted (by decide) hspells rest) hskips hleft.significant).bind ?_)
      rw [DistinctObject.ofText, DistinctObject.isValid,
        if_pos (isPrintable_of_spells (by decide) (by decide) hspells)]
      exact .pure d left

/-- A number is read back from its spellings. -/
theorem reads_numberToken {n : Number} (h : Spells [.number n] text left) (hleft : Stops left) :
    Reads number text n left := by
  rcases spells_singleton.mp h with ⟨_, rest, rfl, hspelling, hskips⟩
  cases hspelling with
  | number hspelling =>
      exact reads_number hspelling hskips hleft.significant hleft.numberEnds hleft.ne_slash

section

variable (V : Type) [Vocabulary V]

/-- The name that a token is in a place that `V` belongs to. -/
def Token.name? : Token → Option (Name V)
  | .reserved word => some (.reserved (.ofWord word))
  | .atom a => some (.user a)
  | _ => none

/-- A token that is a name in one place is one in every other place. -/
theorem exists_name? {V W : Type} [Vocabulary V] [Vocabulary W] {token : Token} {n : Name V}
    (h : token.name? V = some n) : ∃ m, token.name? W = some m := by
  cases token with
  | reserved word => exact ⟨_, rfl⟩
  | atom a => exact ⟨_, rfl⟩
  | _ => exact absurd h (by simp only [Token.name?, reduceCtorEq, not_false_eq_true])

/-- A name is read from a spelling of a token that is this name. -/
theorem relates_name :
    Relates (name V) (Spelled fun tokens n => ∃ token, tokens = [token] ∧ token.name? V = some n) := by
  have hreserved : Relates (reservedName V)
      (Spelled fun tokens n => ∃ token, tokens = [token] ∧ token.name? V = some n) := by
    constructor
    intro text value after h
    rcases bind_done h with ⟨_, _, hdollar, hname⟩
    rcases map_done hname with ⟨_, hreserved, rfl⟩
    rcases map_done (labeled_done hreserved) with ⟨word, hword, rfl⟩
    have hcharacter : Relates (character "$") fun text value left =>
        value = "$" ∧ text = '$' :: left := relates_expect fun h => h
    rcases hcharacter.sound hdollar with ⟨behind, rfl, -, rfl⟩
    rcases (relates_lexeme relates_lowerWord).sound hword with
      ⟨left, rfl, middle, ⟨rfl, hlower⟩, hskips, -⟩
    rw [← List.cons_append]
    exact ⟨left, rfl, _, ⟨.reserved word, rfl, rfl⟩,
      spells_singleton.mpr ⟨_, _, rfl, .reserved hlower, hskips⟩⟩
  refine .labeled _ (hreserved.orElse ((relates_atom.map _).mono ?_))
  rintro text value left ⟨a, ⟨_, rfl, hspells⟩, rfl⟩
  exact ⟨_, ⟨.atom a, rfl, rfl⟩, hspells⟩

/-- A name is read back from the spellings of its tokens. -/
theorem reads_name {token : Token} {n : Name V} (hname : token.name? V = some n)
    (h : Spells [token] text left) (hleft : TokenEnds left) : ReadsUnless E (name V) text n left := by
  cases token with
  | reserved word =>
      rcases spells_singleton.mp h with ⟨_, rest, rfl, hspelling, hskips⟩
      cases hspelling with
      | reserved hlower =>
          rw [Token.name?, Option.some.injEq] at hname
          have hword : ReadsUnless E (lexeme lowerWord) (word.toList ++ rest) word left :=
            reads_lexeme (reads_lowerWord hlower (wordEnds_of_skips hskips hleft.wordEnds)) hskips
              hleft.significant
          rw [← hname]
          refine .labeled _ (.orElse ((reads_expect "character" "$" _).bind ?_))
          exact ((hword.map _).labeled _).map _
  | atom a =>
      rw [Token.name?, Option.some.injEq] at hname
      rw [← hname]
      refine .labeled _ (.orElse_of_misses (.bind (misses_expect fun hprefix => ?_))
        ((reads_atom h hleft).map _))
      rcases hprefix with ⟨tail, htail⟩
      exact h.head?_ne (c := '$') rfl (htail ▸ rfl)
  | _ => exact absurd hname (by simp only [Token.name?, reduceCtorEq, not_false_eq_true])

/-- A name opens with a dollar sign or as an atom does. -/
theorem misses_name (h : ∀ c ∈ text.head?, c ≠ '$' ∧ c ≠ '\x27' ∧ c.isLower = false) :
    MissesUnless E (name V) text := by
  refine .labeled _ (.orElse (.bind (misses_expect fun hprefix => ?_))
    (.map (misses_atom fun c hc => (h c hc).2)))
  rcases hprefix with ⟨rest, rfl⟩
  exact (h '$' rfl).1 rfl

end

end Syntax

end Tptp
