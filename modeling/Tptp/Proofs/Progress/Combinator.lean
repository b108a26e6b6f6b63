import Tptp.Proofs.Progress.Descent
import Tptp.Reading.Bracket

/-!
# Plans by Combinators

The combinators of the grammar as plans, and when plans made by them descend.

Every combinator is written down once more, word for word, with plans in the place of parsers.
Tokens take a character, so what stands between brackets or behind a comma may call anything.
What a plan may call at its own place is a question only about its start.

## Main definitions

* `Plan.lexeme`, `Plan.operator`, `Plan.token`, `Plan.member`: Tokens.
* `Plan.parens`, `Plan.orParens`, `Plan.bracketList`, `Plan.arguments`: Brackets.
* `Plan.sepBy1`, `Plan.optional`, `Plan.withDefault`, `Plan.maybeComma`: Repetition and choice.

## Theorems

* `Plan.Descends.bind`, `Plan.Descends.behind`: Steps one after the other.
* `Plan.Descends.parens`, `Plan.Descends.arguments`: Brackets.
* `Plan.descends_operator`, `Plan.descends_token`, `Plan.descends_member`: Tokens.
-/

namespace Tptp

namespace Reading

variable {α β : Type} {C : Type → Type 1}

namespace Plan

/-- A token and the layout behind it. -/
def lexeme (p : Plan C α) : Plan C α := do
  let value ← p
  layout
  return value

/-- A sign. -/
def character (text : String) : Plan C String :=
  .step (Parser.character text) (isStep_expect _ _ id)

/-- A sign and the layout behind it. -/
def operator (text : String) : Plan C String :=
  lexeme (.step (Parser.expect "operator" text Rest.startsWith) (isStep_expect _ _ id))

/-- A whole word and the layout behind it. -/
def token (text : String) : Plan C String :=
  lexeme (.step (Parser.expect "token" text Rest.hasWord) (isStep_expect _ _ startsWith_of_hasWord))

/-- A member of a vocabulary and the layout behind it. -/
def member (V : Type) [Vocabulary V] : Plan C V :=
  lexeme (.step (Parser.named V) (isStep_named V))

/-- Builds a value, unless it is refused. -/
def build (value : Except Refusal α) : Plan C α :=
  .step (Parser.build value) (isStep_build value)

/-- A word that starts with a lower case letter. -/
def lowerWord : Plan C String :=
  .step Parser.lowerWord (isStep_word _ _)

/-- A word that starts with an upper case letter. -/
def upperWord : Plan C String :=
  .step Parser.upperWord (isStep_word _ _)

/-- A text between quotes. -/
def quoted (quote : Char) : Plan C String :=
  .step (Parser.quoted quote) (isStep_quoted quote)

/-- A digit string and the layout behind it. -/
def integer : Plan C Nat :=
  labeled "integer" (lexeme (.step Parser.numeral isStep_numeral))

/-- One of two plans, as the next character decides. -/
def ifOpens (c : Char) (p q : Plan C α) : Plan C α :=
  look (fun rest => rest.opensWith c) p q

/-- A signed integer and the layout behind it. -/
def signedInteger : Plan C Int :=
  ifOpens '-'
    (do
      step (Parser.take 1) (isStep_take 1)
      let value ← Int.ofNat <$> integer
      return -value)
    (ifOpens '+' (do step (Parser.take 1) (isStep_take 1); Int.ofNat <$> integer)
      (Int.ofNat <$> integer))

/-- The value of a plan, or nothing if it fails. -/
def optional (p : Plan C α) : Plan C (Option α) :=
  some <$> p <|> pure none

/-- The value of a plan, or a given one if it fails. -/
def withDefault (value : α) (p : Plan C α) : Plan C α :=
  p <|> pure value

/-- One item, and more of them behind separators. -/
def sepBy1 (item : Plan C α) (separator : Plan C β) : Plan C (List α) := do
  let first ← item
  let others ← many (separator *> item)
  return first :: others

/-- Any number of items between separators. -/
def sepBy (item : Plan C α) (separator : Plan C β) : Plan C (List α) :=
  withDefault [] (sepBy1 item separator)

/-- An item between parentheses. -/
def parens (p : Plan C α) : Plan C α :=
  labeled "parens" do
    let _ ← operator "("
    let value ← p
    let _ ← operator ")"
    return value

/-- An item as one plan has it, or in parentheses as another does. -/
def orParens (bare inner : Plan C α) : Plan C α :=
  ifOpens '(' (bare <|> parens inner) bare

/-- An item between brackets. -/
def brackets (p : Plan C α) : Plan C α :=
  labeled "brackets" do
    let _ ← operator "["
    let value ← p
    let _ ← operator "]"
    return value

/-- A list between brackets, which may be empty. -/
def bracketList (item : Plan C α) : Plan C (List α) :=
  labeled "bracket list" (brackets (sepBy item (operator ",")))

/-- A list of at least one item between brackets. -/
def bracketList1 (item : Plan C α) : Plan C (List α) :=
  labeled "bracket list 1" (brackets (sepBy1 item (operator ",")))

/-- An item behind a comma. -/
def comma (p : Plan C α) : Plan C α := do
  let _ ← operator ","
  p

/-- An item behind a comma, or nothing. -/
def maybeComma (p : Plan C α) : Plan C (Option α) :=
  optional (comma p)

/-- A list of arguments between parentheses, or nothing at all. -/
def arguments (argument : Plan C α) : Plan C (List α) :=
  ifOpens '('
    (do
      let _ ← operator "("
      let first ← argument
      let others ← repeatWhile (·.opensWith ',') (comma argument)
      let _ ← operator ")"
      return first :: others)
    (pure [])

/-- An item in parentheses behind a keyword. -/
def tagged (tag : String) (p : Plan C α) : Plan C α := do
  let _ ← token tag
  parens p

variable {K : Ranking C} {limit : WithTop Nat} {takes : Bool} {p q : Plan C α}
  {next : α → Plan C β}

namespace Descends

/-- The second step may be at the place of the first one. -/
theorem bind (hp : p.Descends K limit false) (hnext : ∀ a, (next a).Descends K limit takes) :
    (p >>= next).Descends K limit takes :=
  .inl ⟨hp, hnext⟩

/-- The second step is behind a character. -/
theorem behind (hp : p.Descends K limit true) (hnext : ∀ a, (next a).Descends K ⊤ false) :
    (p >>= next).Descends K limit takes :=
  .inr ⟨hp, hnext⟩

/-- The second step calls nothing. -/
theorem followed (hp : p.Descends K limit takes)
    (hnext : ∀ a limit, (next a).Descends K limit false) : (p >>= next).Descends K limit takes := by
  cases takes with
  | false => exact hp.bind fun a => hnext a limit
  | true => exact hp.behind fun a => hnext a ⊤

theorem map (f : α → β) (hp : p.Descends K limit takes) : (f <$> p).Descends K limit takes :=
  hp.followed fun _ _ => rfl

theorem orElse (hp : p.Descends K limit takes) (hq : q.Descends K limit takes) :
    (p <|> q).Descends K limit takes :=
  ⟨hp, hq⟩

theorem optional (hp : p.Descends K limit false) : (Plan.optional p).Descends K limit false :=
  (hp.map some).orElse rfl

theorem withDefault (value : α) (hp : p.Descends K limit false) :
    (Plan.withDefault value p).Descends K limit false :=
  hp.orElse rfl

theorem lexeme (hp : p.Descends K limit takes) : (Plan.lexeme p).Descends K limit takes := by
  refine hp.followed fun value limit => ?_
  have hlayout : (Plan.layout : Plan C Unit).Descends K limit false := rfl
  exact hlayout.bind fun _ => rfl

theorem look {test : Rest → Bool} (hp : p.Descends K limit takes)
    (hq : q.Descends K limit takes) : (Plan.look test p q).Descends K limit takes :=
  ⟨hp, hq⟩

theorem ifOpens {c : Char} (hp : p.Descends K limit takes) (hq : q.Descends K limit takes) :
    (Plan.ifOpens c p q).Descends K limit takes :=
  hp.look hq

end Descends

/-- A call of a name with a smaller rank. -/
theorem descends_call {name : C α} {bound : Nat} (hrank : K.rank name < bound)
    (htakes : takes = true → K.takes name = true) :
    (call name).Descends K (.some bound) takes :=
  ⟨WithTop.coe_lt_coe.mpr hrank, htakes⟩

/-- Any call, behind a character. -/
theorem descends_call_top (name : C α) : (call name).Descends K ⊤ false :=
  ⟨WithTop.coe_lt_top _, nofun⟩

theorem descends_step {p : Parser α} (hp : IsStep takes p) : (step p hp).Descends K limit false :=
  nofun

theorem descends_quoted (quote : Char) : (quoted quote : Plan C String).Descends K limit takes :=
  fun _ => rfl

theorem descends_lowerWord : (lowerWord : Plan C String).Descends K limit takes :=
  fun _ => rfl

theorem descends_upperWord : (upperWord : Plan C String).Descends K limit takes :=
  fun _ => rfl

theorem descends_build (value : Except Refusal α) :
    (build value : Plan C α).Descends K limit false :=
  nofun

section

variable {text : String} (h : text.toList.isEmpty = false)

include h

theorem descends_character : (character text : Plan C String).Descends K limit takes := by
  intro _
  rw [h]
  rfl

theorem descends_operator : (operator text : Plan C String).Descends K limit takes := by
  refine Descends.lexeme fun _ => ?_
  rw [h]
  rfl

theorem descends_token : (token text : Plan C String).Descends K limit takes := by
  refine Descends.lexeme fun _ => ?_
  rw [h]
  rfl

end

/-- No member of the vocabulary may be spelled without a character. -/
theorem descends_member {V : Type} [Vocabulary V]
    (h : ((Vocabulary.members (V := V)).all fun v =>
      !(Vocabulary.canonical v).toList.isEmpty) = true) :
    (member V : Plan C V).Descends K limit takes :=
  Descends.lexeme fun _ => h

theorem descends_integer : (integer : Plan C Nat).Descends K limit takes :=
  Descends.lexeme fun _ => rfl

theorem descends_signedInteger : (signedInteger : Plan C Int).Descends K limit takes := by
  have hinteger : ∀ {limit : WithTop Nat} {takes : Bool},
      (Int.ofNat <$> integer : Plan C Int).Descends K limit takes := descends_integer.map _
  refine .ifOpens ?_ (.ifOpens ?_ hinteger)
  · exact (descends_step _).bind fun _ => hinteger.followed fun _ _ => rfl
  · exact (descends_step _).bind fun _ => hinteger

namespace Descends

variable {separator : Plan C β}

theorem sepBy1 (hp : p.Descends K ⊤ false) (hseparator : separator.Descends K ⊤ true) :
    (Plan.sepBy1 p separator).Descends K ⊤ false := by
  refine hp.bind fun first => bind (p := Plan.many (separator *> p)) ⟨rfl, ?_⟩ fun _ => rfl
  exact hseparator.behind fun _ => hp

theorem sepBy (hp : p.Descends K ⊤ false) (hseparator : separator.Descends K ⊤ true) :
    (Plan.sepBy p separator).Descends K ⊤ false :=
  (hp.sepBy1 hseparator).withDefault []

theorem parens (hp : p.Descends K ⊤ false) : (Plan.parens p).Descends K limit takes :=
  behind (descends_operator rfl) fun _ => hp.bind fun _ =>
    (descends_operator rfl).bind fun _ => rfl

theorem orParens (hp : p.Descends K limit takes) (hq : q.Descends K ⊤ false) :
    (Plan.orParens p q).Descends K limit takes :=
  (hp.orElse hq.parens).ifOpens hp

theorem brackets (hp : p.Descends K ⊤ false) : (Plan.brackets p).Descends K limit takes :=
  behind (descends_operator rfl) fun _ => hp.bind fun _ =>
    (descends_operator rfl).bind fun _ => rfl

theorem bracketList (hp : p.Descends K ⊤ false) : (Plan.bracketList p).Descends K limit takes :=
  (hp.sepBy (descends_operator rfl)).brackets

theorem bracketList1 (hp : p.Descends K ⊤ false) : (Plan.bracketList1 p).Descends K limit takes :=
  (hp.sepBy1 (descends_operator rfl)).brackets

theorem comma (hp : p.Descends K ⊤ false) : (Plan.comma p).Descends K limit takes :=
  behind (descends_operator rfl) fun _ => hp

theorem maybeComma (hp : p.Descends K ⊤ false) : (Plan.maybeComma p).Descends K limit false :=
  hp.comma.optional

/-- Arguments stand behind a parenthesis, if there are any. -/
theorem arguments (hp : p.Descends K ⊤ false) : (Plan.arguments p).Descends K limit false := by
  have hothers : (Plan.repeatWhile (·.opensWith ',') (Plan.comma p)).Descends K ⊤ false :=
    ⟨rfl, hp.comma⟩
  refine ifOpens ?_ rfl
  exact behind (descends_operator rfl) fun _ => hp.bind fun _ => hothers.bind fun _ =>
    (descends_operator rfl).bind fun _ => rfl

theorem tagged {tag : String} (h : tag.toList.isEmpty = false) (hp : p.Descends K ⊤ false) :
    (Plan.tagged tag p).Descends K limit takes :=
  behind (descends_token h) fun _ => hp.parens

end Descends

end Plan

end Reading

end Tptp
