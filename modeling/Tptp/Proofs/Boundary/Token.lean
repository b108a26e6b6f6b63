import Tptp.Proofs.Extent.Layout
import Tptp.Proofs.Lexical.Number
import Tptp.Proofs.Stateful
import Tptp.Grammar.Formula

/-!
# From Token to Token

Parsers that start where no layout starts, and stop where none does.

A session is at a token if it is at a place of its text where no layout starts. The end of the
text is such a place, too. A parser respects tokens if it leads from there to there whenever it
matches. What it does if it does not match is of no concern: the place is taken back, and what
is tried next starts at the same one.

So the property passes through all combinators, loops by an induction on what is left. Those
that bring in signs of their own need nothing more, since a sign takes the layout behind it.

## Main definitions

* `Session.AtToken`: Places where no layout starts.
* `StaysInText`, `RespectsTokens`: Parsers that lead to places of the text, and to such places.

## Theorems

* `Session.AtToken.step_skipLayout`: At a token skipping layout changes nothing.
* `RespectsTokens.of_relates`: Parsers that see only what is left of the text.
* `RespectsTokens.bind`, `RespectsTokens.orElse`, `RespectsTokens.many`: Putting together.
* `RespectsTokens.lexeme`, `RespectsTokens.operator`, `RespectsTokens.token`: Tokens.
* `RespectsTokens.parens`, `RespectsTokens.optionalParens`, `RespectsTokens.arguments`: Brackets.
-/

namespace Tptp

namespace Reading

variable {α β : Type}

/-- The place is one of the text. -/
def Rest.InText (text : List Char) (rest : Rest) : Prop :=
  ∃ position, position ≤ text.length ∧ rest = .ofPosition text position

/-- The session is at a place of its text where no layout starts. -/
def Session.AtToken (session : Session) : Prop :=
  session.rest.InText session.text ∧ Significant session.rest.chars

/-- Places of a text are told by what is left, which is an end of the text. -/
theorem Rest.inText_iff {text : List Char} {rest : Rest} :
    rest.InText text ↔ rest = .ofList rest.chars ∧ rest.chars <:+ text := by
  constructor
  · rintro ⟨position, hle, rfl⟩
    exact ⟨Rest.ofPosition_of_le hle, List.drop_suffix position text⟩
  · rintro ⟨hrest, front, htext⟩
    have hle : front.length ≤ text.length := by
      rw [← htext, List.length_append]
      omega
    refine ⟨front.length, hle, ?_⟩
    rw [Rest.ofPosition_of_le hle, ← htext, List.drop_left]
    exact hrest

/-- Started at a token, the parser stops at a place of the text. -/
structure StaysInText (p : ParserOn Session α) : Prop where
  inText : ∀ {session value after}, session.AtToken → (p session).outcome = .done value after →
    after.InText session.text

/-- Started at a token, the parser stops at a token. -/
structure RespectsTokens (p : ParserOn Session α) : Prop where
  atToken : ∀ {session value after}, session.AtToken → (p session).outcome = .done value after →
    Session.AtToken { session with rest := after }

namespace Session.AtToken

variable {session : Session}

/-- Failures on record are of no concern. -/
theorem moveTo (h : session.AtToken) (record : Option Failure) :
    (Place.moveTo session (Place.rest session) record).AtToken :=
  h

/-- A parser that respects tokens leads to a token. -/
theorem «then» {p : ParserOn Session α} (h : session.AtToken) (hp : RespectsTokens p) {value : α}
    {after : Rest} {dropped : Option Failure} (hdone : p session = ⟨.done value after, dropped⟩) :
    (Place.moveTo session after dropped).AtToken :=
  hp.atToken h (congrArg Result.outcome hdone)

/-- At a token skipping layout changes nothing. -/
theorem step_skipLayout (h : session.AtToken) :
    session.step (Parser.lift Parser.skipLayout) = (.done () session.rest, session) := by
  rcases Rest.inText_iff.mp h.1 with ⟨hrest, -⟩
  refine Session.step_of_done ?_
  rw [hrest]
  exact skipLayout_significant h.2

end Session.AtToken

namespace RespectsTokens

theorem staysInText {p : ParserOn Session α} (h : RespectsTokens p) : StaysInText p :=
  ⟨fun hat hdone => (h.atToken hat hdone).1⟩

/-- A parser that sees only what is left respects tokens if it does so on every text. -/
theorem of_relates {p : Parser α}
    (h : Relates p fun text _ left => left <:+ text ∧ (Significant text → Significant left)) :
    RespectsTokens (Parser.lift p) := by
  constructor
  intro session value after hat hdone
  rcases Rest.inText_iff.mp hat.1 with ⟨hrest, hsuffix⟩
  have hdone : (p session.rest).outcome = .done value after := hdone
  rw [hrest] at hdone
  rcases h.sound hdone with ⟨left, rfl, hleft, hkeeps⟩
  exact ⟨Rest.inText_iff.mpr ⟨rfl, hleft.trans hsuffix⟩, hkeeps hat.2⟩

theorem pure (value : α) : RespectsTokens (pure value) := by
  constructor
  intro session found after hat hdone
  obtain rfl : session.rest = after := (Outcome.done.inj hdone).2
  exact hat

theorem abort (reason : Abort) : RespectsTokens (Parser.abort reason : ParserOn Session α) :=
  ⟨fun _ hdone => absurd hdone nofun⟩

theorem fail (label : String) : RespectsTokens (Parser.fail label : ParserOn Session α) :=
  ⟨fun _ hdone => absurd hdone nofun⟩

variable {p q : ParserOn Session α}

theorem bind {next : α → ParserOn Session β} (hp : RespectsTokens p)
    (hnext : ∀ a, RespectsTokens (next a)) : RespectsTokens (p >>= next) := by
  constructor
  intro session value after hat hdone
  rcases Parser.bind_state_done hdone with ⟨a, middle, dropped, hfirst, hlast⟩
  have hend := (hnext a).atToken (hat.then hp hfirst) hlast
  exact hend

theorem map (f : α → β) (hp : RespectsTokens p) : RespectsTokens (f <$> p) :=
  hp.bind fun _ => .pure _

theorem labeled (label : String) (hp : RespectsTokens p) :
    RespectsTokens (Parser.labeled label p) :=
  ⟨fun hat hdone => hp.atToken hat (Parser.labeled_state_done hdone)⟩

theorem orElse (hp : RespectsTokens p) (hq : RespectsTokens q) : RespectsTokens (p <|> q) := by
  constructor
  intro session value after hat hdone
  rcases Parser.orElse_state_done hdone with hfirst | ⟨record, hsecond⟩
  · exact hp.atToken hat hfirst
  · have hend := hq.atToken (hat.moveTo record) hsecond
    exact hend

theorem choice {others : List (ParserOn Session α)} (h : ∀ p ∈ others, RespectsTokens p) :
    RespectsTokens (Parser.choice others) := by
  induction others with
  | nil => exact abort _
  | cons p others ih =>
      have hp := h p List.mem_cons_self
      have hothers := ih fun q hq => h q (List.mem_cons_of_mem p hq)
      cases others with
      | nil => exact hp
      | cons => exact hp.orElse hothers

theorem optional (hp : RespectsTokens p) : RespectsTokens (Parser.optional p) :=
  (hp.map _).orElse (.pure _)

theorem withDefault (value : α) (hp : RespectsTokens p) :
    RespectsTokens (Parser.withDefault value p) :=
  hp.orElse (.pure value)

theorem ifOpens (c : Char) (hp : RespectsTokens p) (hq : RespectsTokens q) :
    RespectsTokens (Parser.ifOpens c p q) := by
  constructor
  intro session value after hat hdone
  rw [Parser.ifOpens] at hdone
  split at hdone
  · exact hp.atToken hat hdone
  · exact hq.atToken hat hdone

/-- A loop stops at a token if it does so behind every item. The induction is on what is left. -/
theorem many (hp : RespectsTokens p) : RespectsTokens (Parser.many p) := by
  constructor
  intro session values after hat hdone
  induction hsize : session.rest.size using Nat.strongRecOn generalizing session values with
  | _ size ih =>
      rcases Parser.many_state_done hdone with rfl | ⟨a, middle, dropped, hitem, hmore⟩
      · exact hat
      · rcases hmore with rfl | ⟨hlt, others, hothers⟩
        · exact hat.then hp hitem
        · have hend := ih middle.size (hsize ▸ hlt) (hat.then hp hitem) hothers rfl
          exact hend

theorem repeatWhile (inSight : Rest → Bool) (hp : RespectsTokens p) :
    RespectsTokens (Parser.repeatWhile inSight p) := by
  constructor
  intro session values after hat hdone
  induction hsize : session.rest.size using Nat.strongRecOn generalizing session values with
  | _ size ih =>
      rcases Parser.repeatWhile_state_done hdone with rfl | ⟨a, middle, dropped, hitem, hmore⟩
      · exact hat
      · rcases hmore with rfl | ⟨hlt, others, hothers⟩
        · exact hat.then hp hitem
        · have hend := ih middle.size (hsize ▸ hlt) (hat.then hp hitem) hothers rfl
          exact hend

theorem sepBy1 {separator : ParserOn Session β} (hp : RespectsTokens p)
    (hseparator : RespectsTokens separator) : RespectsTokens (Parser.sepBy1 p separator) :=
  hp.bind fun _ => (hseparator.bind fun _ => hp).many.bind fun _ => .pure _

theorem sepBy {separator : ParserOn Session β} (hp : RespectsTokens p)
    (hseparator : RespectsTokens separator) : RespectsTokens (Parser.sepBy p separator) :=
  (hp.sepBy1 hseparator).withDefault []

/-- Behind a token the layout is skipped, so the token itself need only be in the text. -/
theorem lexeme (hp : StaysInText p) : RespectsTokens (Parser.lexeme p) := by
  constructor
  intro session value after hat hdone
  rcases Parser.bind_state_done hdone with ⟨a, middle, dropped, htoken, hlayout⟩
  rcases Parser.bind_state_done hlayout with ⟨_, last, record, hskip, hpure⟩
  obtain rfl : last = after := (Outcome.done.inj hpure).2
  rcases Rest.inText_iff.mp (hp.inText hat (congrArg Result.outcome htoken)) with ⟨hmiddle, hsuffix⟩
  have hskip : (Parser.skipLayout middle).outcome = .done () last := congrArg Result.outcome hskip
  rw [hmiddle] at hskip
  rcases relates_skipLayout.sound hskip with ⟨left, rfl, hskips, hleft⟩
  exact ⟨Rest.inText_iff.mpr ⟨rfl, hskips.suffix.trans hsuffix⟩, hleft⟩

/-- A token that is seen in what is left of the text, and the layout behind it. -/
theorem lift_lexeme {p : Parser α} (h : Relates p fun text _ left => left <:+ text) :
    RespectsTokens (Parser.lift (Parser.lexeme p)) := by
  refine of_relates ((relates_lexeme h).mono ?_)
  rintro text _ left ⟨middle, hmiddle, hskips, hleft⟩
  exact ⟨hskips.suffix.trans hmiddle, fun _ => hleft⟩

theorem operator (sign : String) : RespectsTokens (Parser.lift (Parser.operator sign)) := by
  refine lift_lexeme ((relates_expect fun h => h).mono ?_)
  rintro _ _ left ⟨-, rfl⟩
  exact List.suffix_append _ left

theorem token (word : String) : RespectsTokens (Parser.lift (Parser.token word)) := by
  refine lift_lexeme ((relates_expect fun h => (Bool.and_eq_true _ _ ▸ h).1).mono ?_)
  rintro _ _ left ⟨-, rfl⟩
  exact List.suffix_append _ left

theorem member (V : Type) [Vocabulary V] : RespectsTokens (Parser.lift (Parser.member V)) := by
  refine lift_lexeme (relates_named.mono ?_)
  rintro _ v left rfl
  exact List.suffix_append _ left

theorem integer : RespectsTokens (Parser.lift Parser.integer) := by
  refine labeled _ (lift_lexeme (relates_numeral.mono ?_))
  rintro _ _ left ⟨digits, rfl, -⟩
  exact List.suffix_append _ left

theorem skipLayout : RespectsTokens (Parser.lift Parser.skipLayout) :=
  of_relates (relates_skipLayout.mono fun _ _ _ ⟨hskips, hleft⟩ => ⟨hskips.suffix, fun _ => hleft⟩)

section

variable {p : Parser α}

/-- Steps can be lifted one by one. -/
theorem lift_bind {next : α → Parser β} (hp : RespectsTokens (Parser.lift p))
    (hnext : ∀ a, RespectsTokens (Parser.lift (next a))) :
    RespectsTokens (Parser.lift (p >>= next)) := by
  rw [Parser.lift_bind]
  exact hp.bind hnext

theorem lift_map (f : α → β) (hp : RespectsTokens (Parser.lift p)) :
    RespectsTokens (Parser.lift (f <$> p)) :=
  hp.lift_bind fun _ => .pure _

theorem lift_labeled (label : String) (hp : RespectsTokens (Parser.lift p)) :
    RespectsTokens (Parser.lift (Parser.labeled label p)) :=
  hp.labeled label

end

theorem comma (hp : RespectsTokens p) : RespectsTokens (Parser.comma p) :=
  (operator ",").bind fun _ => hp

theorem maybeComma (hp : RespectsTokens p) : RespectsTokens (Parser.maybeComma p) :=
  hp.comma.optional

theorem parens (hp : RespectsTokens p) : RespectsTokens (Parser.parens p) :=
  labeled _ ((operator "(").bind fun _ => hp.bind fun _ => (operator ")").bind fun _ => .pure _)

theorem orParens (hp : RespectsTokens p) (hq : RespectsTokens q) :
    RespectsTokens (Parser.orParens p q) :=
  ifOpens _ (hp.orElse hq.parens) hp

theorem optionalParens {p : Nat → ParserOn Session α} (hp : ∀ n, RespectsTokens (p n))
    (allowance : Nat) : RespectsTokens (Parser.optionalParens p allowance) := by
  induction allowance with
  | zero => exact abort .tooDeep
  | succ allowance ih => exact (hp allowance).orParens ih

theorem brackets (hp : RespectsTokens p) : RespectsTokens (Parser.brackets p) :=
  labeled _ ((operator "[").bind fun _ => hp.bind fun _ => (operator "]").bind fun _ => .pure _)

theorem bracketList (hp : RespectsTokens p) : RespectsTokens (Parser.bracketList p) :=
  labeled _ (hp.sepBy (operator ",")).brackets

theorem bracketList1 (hp : RespectsTokens p) : RespectsTokens (Parser.bracketList1 p) :=
  labeled _ (hp.sepBy1 (operator ",")).brackets

theorem arguments (hp : RespectsTokens p) : RespectsTokens (Parser.arguments p) := by
  have hothers := hp.comma.repeatWhile (·.opensWith ',')
  refine ifOpens _ ((operator "(").bind fun _ => hp.bind fun _ => hothers.bind fun _ => ?_)
    (.pure _)
  exact (operator ")").bind fun _ => .pure _

theorem tagged (tag : String) (hp : RespectsTokens p) : RespectsTokens (Parser.tagged tag p) :=
  (token tag).bind fun _ => hp.parens

theorem mapping (hp : RespectsTokens p) : RespectsTokens (Grammar.mapping p) := by
  have hsorts : RespectsTokens (Grammar.mappingArguments p) :=
    ((hp.map _).orElse (hp.sepBy1 (operator "*")).parens).bind fun _ =>
      (operator ">").bind fun _ => .pure _
  exact (hsorts.withDefault _).bind fun _ => hp.bind fun _ => .pure _

theorem sortedNote {sort : Nat → ParserOn Session α} (hsort : ∀ n, RespectsTokens (sort n))
    (allowance : Nat) : RespectsTokens (Grammar.sortedNote sort allowance) := by
  have hgiven : RespectsTokens (Grammar.givenSort sort allowance) :=
    (operator ":").bind fun _ => optionalParens hsort allowance
  exact labeled _ (hgiven.optional.map _)

end RespectsTokens

end Reading

end Tptp
