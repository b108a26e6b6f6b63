import Mathlib.Data.Bool.AllAny
import Tptp.Grammar.Term
import Tptp.Proofs.Character
import Tptp.Proofs.Lexical.Word

/-!
# Composed Parsers

The parsers that are made of a few primitives by the combinators.

Many facts hold of every production for the same reason: they hold of what reads
characters, and no way of putting parsers together spoils them. `Composed` says how
productions are put together. A fact of this kind is proved by induction on it,
once, and the grammar is gone through once to see that it is composed.

The primitives are those of the language of entries. Two things tell the place where a
text inside of a larger one ends. All primitives but one stop in front of a full stop
that ends an entry; a flag tells whether this one is allowed. And brackets are only
taken in pairs, with commas between them. Another flag tells whether commas are taken
outside of brackets, too. Where a parser looks ahead, it does not ask which kind of
layout it sees.

## Main definitions

* `isPlain`, `isBland`: The characters that start neither layout nor a quotation.
* `OverlooksLayout`: One kind of layout ahead is as good as another.
* `closers`: The characters that stand behind a text inside of a larger one.
* `Composed`: How parsers are put together.

## Theorems

* `Composed.map`, `Composed.lexeme`, `Composed.optional`: Further combinators.
* `Composed.parens`, `Composed.arguments`, `Composed.bracketList`: Brackets.
* `Composed.operator`, `Composed.token`, `Composed.member`: Tokens.
-/

namespace Tptp

namespace Reading

/-- A character that starts neither layout nor a quotation and ends nothing. -/
def isPlain (c : Char) : Bool :=
  !Text.opensLayout c && decide (c ∉ ['\x27', '"', '.'])

/-- A plain character that is no bracket and separates nothing. -/
def isBland (c : Char) : Bool :=
  isPlain c && decide (c ∉ ['(', ')', '[', ']', ','])

/-- A word of such characters, and not the empty one. -/
def isBlandWord (word : List Char) : Bool :=
  !word.isEmpty && word.all isBland

theorem not_opensLayout_of_isPlain {c : Char} (h : isPlain c = true) :
    Text.opensLayout c = false :=
  (Bool.not_eq_true' _).mp (Bool.and_eq_true _ _ ▸ h).1

theorem isPlain_of_isBland {c : Char} (h : isBland c = true) : isPlain c = true :=
  (Bool.and_eq_true _ _ ▸ h).1

theorem all_isBland_of_isBlandWord {word : List Char} (h : isBlandWord word = true) :
    word.all isBland = true :=
  (Bool.and_eq_true _ _ ▸ h).2

theorem all_isPlain_of_isBlandWord {word : List Char} (h : isBlandWord word = true) :
    word.all isPlain = true :=
  List.all_eq_true.mpr fun c hc =>
    isPlain_of_isBland (List.all_eq_true.mp (all_isBland_of_isBlandWord h) c hc)

/-- The characters that may stand behind a text on a line of its own: the end of the
    line, and a sign that a parser takes only in brackets. -/
def closers (commas : Bool) : List Char :=
  if commas then ['\n', ')'] else ['\n', ')', ',']

/-- With commas there are less such signs. -/
theorem mem_closers {commas : Bool} {c : Char} (h : c ∈ closers commas) : c ∈ closers false := by
  cases commas with
  | false => exact h
  | true =>
      have hall : ∀ c ∈ closers true, c ∈ closers false := List.all_iff_forall_prop.mp (by decide)
      exact hall c h

/-- A function of the next character does not tell apart what opens layout. -/
def OverlooksLayout {γ : Type} (f : Option Char → γ) : Prop :=
  ∀ c d, Text.opensLayout c = true → Text.opensLayout d = true → f (some c) = f (some d)

/-- What opens layout is no character that does not. -/
theorem some_ne_of_opensLayout {c d : Char} (hc : Text.opensLayout c = false)
    (hd : Text.opensLayout d = true) : some d ≠ some c := by
  intro heq
  rw [Option.some.inj heq, hc] at hd
  exact Bool.false_ne_true hd

/-- A test for a character that does not open layout. -/
theorem overlooksLayout_of_eq {c : Char} (hc : Text.opensLayout c = false) :
    OverlooksLayout fun head => decide (head = some c) := by
  intro d e hd he
  exact (decide_eq_false (some_ne_of_opensLayout hc hd)).trans
    (decide_eq_false (some_ne_of_opensLayout hc he)).symm

namespace Parser

variable {α : Type}

/-- An item between two signs. -/
def between (opening closing : String) (p : Parser α) : Parser α := do
  let _ ← operator opening
  let value ← p
  let _ ← operator closing
  return value

theorem parens_eq (p : Parser α) : parens p = labeled "parens" (between "(" ")" p) := rfl

theorem brackets_eq (p : Parser α) : brackets p = labeled "brackets" (between "[" "]" p) := rfl

/-- Arguments stand between parentheses, if there are any. -/
theorem arguments_eq (argument : Parser α) :
    arguments argument = ifOpens '(' (between "(" ")" do
      let first ← argument
      let others ← repeatWhile (·.opensWith ',') (comma argument)
      return first :: others) (pure []) := by
  -- The production ends with the closing parenthesis, and so do the steps in front of it.
  have hgroup : ∀ first : α, ((repeatWhile (·.opensWith ',') (comma argument) >>= fun others =>
      pure (first :: others) : Parser (List α)) >>= fun value => operator ")" >>= fun _ =>
        (pure value : Parser (List α))) =
      repeatWhile (·.opensWith ',') (comma argument) >>= fun others => operator ")" >>= fun _ =>
        pure (first :: others) := fun first =>
    (bind_assoc (m := Parser) _ _ _).trans (congrArg _ (funext fun others =>
      pure_bind (m := Parser) _ _))
  refine congrArg (fun p : Parser (List α) =>
    ifOpens '(' (operator "(" >>= fun _ => p) (pure [])) ?_
  exact (congrArg _ (funext fun first => (hgroup first).symm)).trans
    (bind_assoc (m := Parser) argument _ _).symm

end Parser

/-- No sign stands at the end of a text. -/
theorem misses_operator_nil {E : Abort → Prop} {sign : String} (hne : sign.toList ≠ []) :
    MissesUnless E (Parser.operator sign) [] :=
  misses_lexeme (misses_expect fun h => hne (List.prefix_nil.mp h))

/-- The two signs are a pair of brackets. -/
def IsBracketPair (opening closing : String) : Prop :=
  (opening = "(" ∧ closing = ")") ∨ (opening = "[" ∧ closing = "]")

/-- A parser that is put together from the primitives by the combinators, with or
    without the full stop among the primitives, and with or without commas outside of
    brackets. -/
inductive Composed (stops : Bool) : Bool → {α : Type} → Parser α → Prop where
  | pure {commas : Bool} {α : Type} (a : α) : Composed stops commas (pure a)
  | fail {commas : Bool} {α : Type} (label : String) :
      Composed stops commas (Parser.fail label : Parser α)
  | abort {commas : Bool} {α : Type} (reason : Abort) :
      Composed stops commas (Parser.abort reason : Parser α)
  | bind {commas : Bool} {α β : Type} {p : Parser α} {next : α → Parser β}
      (hp : Composed stops commas p) (hnext : ∀ a, Composed stops commas (next a)) :
      Composed stops commas (p >>= next)
  | labeled {commas : Bool} {α : Type} {p : Parser α} (label : String)
      (hp : Composed stops commas p) : Composed stops commas (Parser.labeled label p)
  | orElse {commas : Bool} {α : Type} {p q : Parser α} (hp : Composed stops commas p)
      (hq : Composed stops commas q) : Composed stops commas (p <|> q)
  /-- The next character decides, but not between the ways in which a text may end. -/
  | look {commas : Bool} {α : Type} {p : Option Char → Parser α}
      (hend : stops = false → ∀ c ∈ closers commas, p (some c) = p none)
      (hlayout : OverlooksLayout p)
      (hp : ∀ c, Composed stops commas (p c)) :
      Composed stops commas fun rest => p rest.chars.head? rest
  /-- What is repeated does not match at the end of a text. -/
  | many {commas : Bool} {α : Type} {p : Parser α}
      (hend : MissesUnless (fun _ => False) p [])
      (hp : Composed stops commas p) : Composed stops commas (Parser.many p)
  | repeatWhile {commas : Bool} {α : Type} {p : Parser α} (inSight : Option Char → Bool)
      (hnone : inSight none = false)
      (hend : stops = false → ∀ c ∈ closers commas, inSight (some c) = false)
      (hlayout : OverlooksLayout inSight)
      (hp : Composed stops commas p) :
      Composed stops commas (Parser.repeatWhile (fun rest => inSight rest.chars.head?) p)
  | layout {commas : Bool} : Composed stops commas Parser.skipLayout
  | sign {commas : Bool} (label : String) {sign : String}
      (hbland : isBlandWord sign.toList = true) :
      Composed stops commas (Parser.expect label sign Rest.startsWith)
  | comma : Composed stops true (Parser.operator ",")
  | enclosed {commas : Bool} {α : Type} {p : Parser α} {opening closing : String}
      (hpair : IsBracketPair opening closing) (hp : Composed stops true p) :
      Composed stops commas (Parser.between opening closing p)
  | wholeWord {commas : Bool} (label : String) {word : String}
      (hbland : isBlandWord word.toList = true) :
      Composed stops commas (Parser.expect label word Rest.hasWord)
  | named {commas : Bool} {V : Type} [Vocabulary V]
      (hbland : ∀ v : V, isBlandWord (Vocabulary.canonical v).toList = true) :
      Composed stops commas (Parser.named V)
  | word {commas : Bool} (label : String) {first : Char → Bool}
      (hfirst : ∀ c, first c = true → Text.isWordChar c = true) :
      Composed stops commas (Parser.word label first)
  | quoted {commas : Bool} {quote : Char} (hquote : quote = '\x27' ∨ quote = '"') :
      Composed stops commas (Parser.quoted quote)
  | numeral {commas : Bool} : Composed stops commas Parser.numeral
  | decimalLiteral {commas : Bool} : Composed stops commas Parser.decimalLiteral
  /-- A parser behind a plain character, where that is the next one. -/
  | behind {commas : Bool} {α : Type} {p q : Parser α} {c : Char} (hc : isBland c = true)
      (hp : Composed stops commas p) (hq : Composed stops commas q) :
      Composed stops commas (Parser.ifOpens c (Parser.take 1 >>= fun _ => p) q)
  /-- A slash behind a parser that leaves no comment in front of it. -/
  | slash {commas : Bool} {α β : Type} {p : Parser α} {next : α → Parser β}
      (hp : Composed stops commas p)
      (hclear : ∀ {text value left}, (p (.ofList text)).outcome = .done value (.ofList left) →
        Significant left) (hnext : ∀ a, Composed stops commas (next a)) :
      Composed stops commas (p >>= fun a => Parser.character "/" >>= fun _ => next a)
  | stop {commas : Bool} (hstops : stops = true) : Composed stops commas (Parser.operator ".")

namespace Composed

variable {stops commas : Bool} {α β : Type} {p q : Parser α}

theorem map (hp : Composed stops commas p) (f : α → β) : Composed stops commas (f <$> p) :=
  .bind hp fun _ => .pure _

theorem build (value : Except Refusal α) : Composed stops commas (Parser.build value) := by
  cases value with
  | ok value => exact .pure value
  | error refusal => exact .abort _

theorem ifOpens {c : Char} (hc : c ∉ closers false ∧ Text.opensLayout c = false)
    (hp : Composed stops commas p) (hq : Composed stops commas q) : Composed stops commas (Parser.ifOpens c p q) := by
  have heq : Parser.ifOpens c p q =
      fun rest => (if rest.chars.head? = some c then p else q) rest := by
    funext rest
    change (if rest.opensWith c = true then p rest else q rest) = _
    simp only [Rest.opensWith, decide_eq_true_eq]
    split <;> rfl
  rw [heq]
  refine .look (p := fun head => if head = some c then p else q) (fun _ d hd => ?_)
    (fun d e hd he => ?_) fun head => ?_
  · have hne : some d ≠ some c := fun h => hc.1 (Option.some.inj h ▸ mem_closers hd)
    rw [if_neg hne, if_neg (Option.some_ne_none c).symm]
  · exact (if_neg (some_ne_of_opensLayout hc.2 hd)).trans
      (if_neg (some_ne_of_opensLayout hc.2 he)).symm
  · split
    · exact hp
    · exact hq

theorem optional (hp : Composed stops commas p) : Composed stops commas (Parser.optional p) :=
  (hp.map _).orElse (.pure _)

theorem withDefault (value : α) (hp : Composed stops commas p) :
    Composed stops commas (Parser.withDefault value p) :=
  hp.orElse (.pure _)

theorem sepBy1 {sign : String} (hp : Composed stops commas p) (hne : sign.toList ≠ [])
    (hseparator : Composed stops commas (Parser.operator sign)) :
    Composed stops commas (Parser.sepBy1 p (Parser.operator sign)) :=
  hp.bind fun _ => (many (.bind (misses_operator_nil hne)) (hseparator.bind fun _ => hp)).bind
    fun _ => .pure _

theorem sepBy {sign : String} (hp : Composed stops commas p) (hne : sign.toList ≠ [])
    (hseparator : Composed stops commas (Parser.operator sign)) :
    Composed stops commas (Parser.sepBy p (Parser.operator sign)) :=
  (hp.sepBy1 hne hseparator).withDefault _

theorem lexeme (hp : Composed stops commas p) : Composed stops commas (Parser.lexeme p) :=
  hp.bind fun _ => layout.bind fun _ => .pure _

theorem operator {text : String} (hbland : isBlandWord text.toList = true) :
    Composed stops commas (Parser.operator text) :=
  (sign _ hbland).lexeme

theorem token {text : String} (hbland : isBlandWord text.toList = true) :
    Composed stops commas (Parser.token text) :=
  (wholeWord _ hbland).lexeme

theorem member {V : Type} [Vocabulary V]
    (hbland : ∀ v : V, isBlandWord (Vocabulary.canonical v).toList = true) :
    Composed stops commas (Parser.member V) :=
  (named hbland).lexeme

theorem integer : Composed stops commas Parser.integer :=
  numeral.lexeme.labeled _

theorem signed {negative? : α → Option α} (hp : Composed stops commas p) :
    Composed stops commas (Parser.signed negative? p) := by
  refine .behind (by decide) (hp.bind fun value => ?_) (.behind (by decide) hp hp)
  split
  · exact .pure _
  · exact .abort _

theorem signedInteger : Composed stops commas Parser.signedInteger :=
  signed (integer.map _)

theorem parens (hp : Composed stops true p) : Composed stops commas (Parser.parens p) := by
  rw [Parser.parens_eq]
  exact .labeled _ (.enclosed (.inl ⟨rfl, rfl⟩) hp)

theorem orParens (hp : Composed stops commas p) (hq : Composed stops true q) :
    Composed stops commas (Parser.orParens p q) :=
  .ifOpens (by decide) (hp.orElse hq.parens) hp

theorem optionalParens {p : Nat → Parser α} (hp : ∀ commas n, Composed stops commas (p n))
    (allowance : Nat) : Composed stops commas (Parser.optionalParens p allowance) := by
  induction allowance generalizing commas with
  | zero => exact .abort _
  | succ allowance ih => exact (hp commas allowance).orParens ih

theorem brackets (hp : Composed stops true p) : Composed stops commas (Parser.brackets p) := by
  rw [Parser.brackets_eq]
  exact .labeled _ (.enclosed (.inr ⟨rfl, rfl⟩) hp)

theorem bracketList (hp : Composed stops true p) :
    Composed stops commas (Parser.bracketList p) :=
  .labeled _ (hp.sepBy (by decide) .comma).brackets

theorem bracketList1 (hp : Composed stops true p) :
    Composed stops commas (Parser.bracketList1 p) :=
  .labeled _ (hp.sepBy1 (by decide) .comma).brackets

/-- An item behind a comma, inside of brackets. -/
theorem behindComma (hp : Composed stops true p) : Composed stops true (Parser.comma p) :=
  comma.bind fun _ => hp

theorem maybeComma (hp : Composed stops true p) : Composed stops true (Parser.maybeComma p) :=
  hp.behindComma.optional

theorem arguments (hp : Composed stops true p) : Composed stops commas (Parser.arguments p) := by
  rw [Parser.arguments_eq]
  refine .ifOpens (by decide) (.enclosed (.inl ⟨rfl, rfl⟩) ?_) (.pure _)
  have hothers := hp.behindComma.repeatWhile (fun head => decide (head = some ',')) rfl
    (fun _ => List.all_iff_forall_prop.mp (by decide)) (overlooksLayout_of_eq (by decide))
  exact hp.bind fun _ => hothers.bind fun _ => .pure _

theorem tagged {tag : String} (htag : isBlandWord tag.toList = true)
    (hp : Composed stops true p) : Composed stops commas (Parser.tagged tag p) :=
  (token htag).bind fun _ => hp.parens

end Composed

end Reading

end Tptp
