import Mathlib.Logic.Relation
import Tptp.Proofs.CommentLine.Word

/-!
# Lexing a Comment Line

What a parser with a contextual lexer makes of a comment line.

The grammar of lines has a handful of sentences. A lexer that is guided by the parser takes,
at each point of a line, only what some sentence goes on with, and it passes over spacing.
That leaves choices: spacing behind a code may be passed over or be part of the remark. The
parser accepts a line if its lexemes are a sentence, and it rejects a line if it gets stuck.

`IsContextual` says this of a reader of lines, without saying which choices it makes. They do
not matter. What the reference reader `Line.scan?` makes of the rest of the line is kept by
each step of the lexer, so every run ends as the reference reader does, and there is only one
such reader.

## Main definitions

* `Lexeme`, `Lexeme.TakenFrom`: The pieces of a line, and how they are cut off.
* `Sentence`, `MayFollow`: The grammar, and what it allows behind some lexemes.
* `Lexing`, `Lexing.Step`: A line that is being cut into lexemes.
* `IsContextual`: Readers of lines that work in this manner.
* `Stage`, `Stage.scan?`: The reference reader behind some lexemes.

## Theorems

* `Lexing.Step.scan?_eq`, `Lexing.scan?_eq_of_run`: Steps keep what is read.
* `Lexing.exists_step_of_scan?`: A line that is read is not stuck.
* `contextual_scan?`: The reference reader works in this manner.
* `IsContextual.eq_scan?`: No other reader does.
-/

namespace Tptp

namespace Szs

open Relation (ReflTransGen)

/-- A piece of a line. -/
inductive Lexeme where
  | word (word : String)
  | code (text : String)
  | remark (text : String)

/-- A piece is cut off at the start of a line. Codes go as far as there are letters, and
    remarks as far as the line does. -/
inductive Lexeme.TakenFrom : Lexeme → List Char → List Char → Prop where
  | word {word : String} (left : List Char) (hne : word.toList ≠ []) :
      TakenFrom (.word word) (word.toList ++ left) left
  | code {code : String} {left : List Char} (h : IsCode code left) :
      TakenFrom (.code code) (code.toList ++ left) left
  | remark {text : String} {left : List Char} (hne : text.toList ≠ [])
      (hline : '\n' ∉ text.toList) (hends : ∀ c ∈ left.head?, c = '\n') :
      TakenFrom (.remark text) (text.toList ++ left) left

/-- What a line is made of, but for the remark. -/
def Line.lexemes : Line → List Lexeme
  | .status code => [.word "SZS", .word "status", .code code]
  | .dataform code => [.word "SZS", .word "output", .word "start", .code code]

/-- The sentences of the grammar, with what they say. They may end in a remark. -/
def Sentence (lexemes : List Lexeme) (line : Line) : Prop :=
  lexemes = line.lexemes ∨ ∃ text, lexemes = line.lexemes ++ [.remark text]

/-- Some sentence goes on in this way. -/
def MayFollow (read : List Lexeme) (lexeme : Lexeme) : Prop :=
  ∃ others line, Sentence (read ++ lexeme :: others) line

/-- A line that is being cut into pieces. -/
structure Lexing where
  /-- The pieces that are cut off. -/
  read : List Lexeme
  /-- What is left of the line. -/
  left : List Char

namespace Lexing

/-- Spacing is passed over, and what the grammar allows is taken. -/
inductive Step : Lexing → Lexing → Prop where
  | skip {read : List Lexeme} {c : Char} {left : List Char} (h : isSpacing c = true) :
      Step ⟨read, c :: left⟩ ⟨read, left⟩
  | take {read : List Lexeme} {lexeme : Lexeme} {line left : List Char}
      (hallowed : MayFollow read lexeme) (h : lexeme.TakenFrom line left) :
      Step ⟨read, line⟩ ⟨read ++ [lexeme], left⟩

/-- The whole line was taken, and it is a sentence. -/
def Accepts (lexing : Lexing) (line : Line) : Prop :=
  lexing.left = [] ∧ Sentence lexing.read line

/-- There is no way to go on, and no sentence to end with. -/
def Stuck (lexing : Lexing) : Prop :=
  (∀ next, ¬ Step lexing next) ∧ ∀ line, ¬ lexing.Accepts line

end Lexing

/-- A reader that parses lines by a contextual lexer: it reads what is accepted, and nothing
    where it gets stuck. -/
structure IsContextual (scan : List Char → Option Line) : Prop where
  accepts : ∀ {text line}, scan text = some line →
    ∃ last, ReflTransGen Lexing.Step ⟨[], text⟩ last ∧ last.Accepts line
  rejects : ∀ {text}, scan text = none →
    ∃ last, ReflTransGen Lexing.Step ⟨[], text⟩ last ∧ last.Stuck

/-- How much of a sentence was taken. -/
inductive Stage where
  | start
  | announced
  | status
  | output
  | dataform
  | said (line : Line)
  | remarked (line : Line) (remark : String)

namespace Stage

/-- The lexemes that were taken. -/
def lexemes : Stage → List Lexeme
  | start => []
  | announced => [.word "SZS"]
  | status => [.word "SZS", .word "status"]
  | output => [.word "SZS", .word "output"]
  | dataform => [.word "SZS", .word "output", .word "start"]
  | said line => line.lexemes
  | remarked line remark => line.lexemes ++ [.remark remark]

/-- What the reference reader makes of the rest of a line. -/
def scan? : Stage → List Char → Option Line
  | start, text => Line.scan? text
  | announced, text =>
    match afterWord? "status" text with
    | some text => do return .status (← code? text)
    | none => do
      let text ← afterWord? "output" text
      let text ← afterWord? "start" text
      return .dataform (← code? text)
  | status, text => do return .status (← code? text)
  | output, text => do
    let text ← afterWord? "start" text
    return .dataform (← code? text)
  | dataform, text => do return .dataform (← code? text)
  | said line, text => if '\n' ∈ text then none else some line
  | remarked line _, text => if text.all isSpacing = true then some line else none

/-- What a stage goes on with. -/
inductive Takes : Stage → Lexeme → Stage → Prop where
  | announced : Takes start (.word "SZS") announced
  | status : Takes announced (.word "status") status
  | output : Takes announced (.word "output") output
  | dataform : Takes output (.word "start") dataform
  | statusCode (code : String) : Takes status (.code code) (said (.status code))
  | dataformCode (code : String) : Takes dataform (.code code) (said (.dataform code))
  | remark (line : Line) (text : String) : Takes (said line) (.remark text) (remarked line text)

theorem Takes.lexemes_eq {stage next : Stage} {lexeme : Lexeme} (h : Takes stage lexeme next) :
    next.lexemes = stage.lexemes ++ [lexeme] := by
  cases h <;> rfl

/-- What a stage goes on with is allowed by the grammar. -/
theorem Takes.mayFollow {stage next : Stage} {lexeme : Lexeme} (h : Takes stage lexeme next) :
    MayFollow stage.lexemes lexeme := by
  cases h with
  | announced | status => exact ⟨_, .status "", .inl rfl⟩
  | output | dataform => exact ⟨_, .dataform "", .inl rfl⟩
  | statusCode code => exact ⟨[], .status code, .inl rfl⟩
  | dataformCode code => exact ⟨[], .dataform code, .inl rfl⟩
  | remark line text => exact ⟨[], line, .inr ⟨text, rfl⟩⟩

/-- What a line is made of tells the line. -/
theorem lexemes_append_inj {line other : Line} {tail tail' : List Lexeme}
    (h : line.lexemes ++ tail = other.lexemes ++ tail') : line = other ∧ tail = tail' := by
  cases line <;> cases other
  all_goals
    simp only [Line.lexemes, List.cons_append, List.nil_append, List.cons.injEq, Lexeme.word.injEq,
      Lexeme.code.injEq, String.reduceEq, reduceCtorEq, true_and, false_and] at h
  · exact ⟨congrArg Line.status h.1, h.2⟩
  · exact ⟨congrArg Line.dataform h.1, h.2⟩

/-- A sentence is what a line is made of, and a remark or nothing. -/
theorem sentence_iff {lexemes : List Lexeme} {line : Line} : Sentence lexemes line ↔
    ∃ tail, lexemes = line.lexemes ++ tail ∧ (tail = [] ∨ ∃ text, tail = [.remark text]) := by
  constructor
  · rintro (rfl | ⟨text, rfl⟩)
    · exact ⟨[], (List.append_nil _).symm, .inl rfl⟩
    · exact ⟨_, rfl, .inr ⟨text, rfl⟩⟩
  · rintro ⟨tail, rfl, rfl | ⟨text, rfl⟩⟩
    · exact .inl (List.append_nil _)
    · exact .inr ⟨text, rfl⟩

/-- The grammar allows nothing else. -/
theorem exists_takes {stage : Stage} {lexeme : Lexeme} (h : MayFollow stage.lexemes lexeme) :
    ∃ next, Takes stage lexeme next := by
  rcases h with ⟨others, line, h⟩
  rcases sentence_iff.mp h with ⟨tail, h, htail⟩
  cases stage with
  | start =>
      cases line with
      | status | dataform =>
          cases h
          exact ⟨_, .announced⟩
  | announced =>
      cases line with
      | status =>
          cases h
          exact ⟨_, .status⟩
      | dataform =>
          cases h
          exact ⟨_, .output⟩
  | status =>
      cases line with
      | status code =>
          cases h
          exact ⟨_, .statusCode code⟩
      | dataform => simp [lexemes, Line.lexemes] at h
  | output =>
      cases line with
      | status => simp [lexemes, Line.lexemes] at h
      | dataform =>
          cases h
          exact ⟨_, .dataform⟩
  | dataform =>
      cases line with
      | status => simp [lexemes, Line.lexemes] at h
      | dataform code =>
          cases h
          exact ⟨_, .dataformCode code⟩
  | said =>
      rw [← (lexemes_append_inj h).2] at htail
      rcases htail with htail | ⟨text, htail⟩
      · exact absurd htail (List.cons_ne_nil _ _)
      · cases htail
        exact ⟨_, .remark _ text⟩
  | remarked =>
      -- Behind a remark there is nothing.
      rw [lexemes, List.append_assoc] at h
      rw [← (lexemes_append_inj h).2] at htail
      rcases htail with htail | ⟨text, htail⟩ <;> cases htail

/-- A sentence is read as what it says. -/
theorem scan?_nil {stage : Stage} {line : Line} (h : Sentence stage.lexemes line) :
    stage.scan? [] = some line := by
  rcases sentence_iff.mp h with ⟨tail, h, -⟩
  cases stage with
  | said =>
      rw [lexemes, ← List.append_nil (Line.lexemes _)] at h
      rw [(lexemes_append_inj h).1]
      rfl
  | remarked =>
      rw [(lexemes_append_inj h).1]
      rfl
  | _ => cases line <;> simp [lexemes, Line.lexemes] at h

/-- Nothing is read from the end of a line but a sentence. -/
theorem sentence_of_scan?_nil {stage : Stage} {line : Line} (h : stage.scan? [] = some line) :
    Sentence stage.lexemes line := by
  cases stage with
  | said =>
      cases h
      exact .inl rfl
  | remarked line remark =>
      cases h
      exact .inr ⟨remark, rfl⟩
  | _ => cases h

/-- Spacing is passed over. -/
theorem scan?_cons {c : Char} (hc : isSpacing c = true) (stage : Stage) (text : List Char) :
    stage.scan? (c :: text) = stage.scan? text := by
  have hnewline : '\n' ∈ c :: text ↔ '\n' ∈ text := by
    refine List.mem_cons.trans (or_iff_right ?_)
    rintro rfl
    exact absurd hc (by decide)
  cases stage with
  | said => simp only [scan?, hnewline]
  | remarked => simp only [scan?, List.all_cons, hc, Bool.true_and]
  | _ => simp only [scan?, Line.scan?, afterWord?_cons hc, code?_cons hc]

end Stage

section

variable {stage next : Stage} {lexeme : Lexeme} {text left : List Char} {line : Line}

theorem afterWord?_self {word : String}
    (hword : ∃ c chars, word.toList = c :: chars ∧ isSpacing c = false) :
    afterWord? word (word.toList ++ left) = some left := by
  have hspaces : ([] : List Char).all isSpacing = true := rfl
  exact afterWord?_append hspaces (flush_append hword left)

theorem code?_self {code : String} (h : IsCode code left) :
    code? (code.toList ++ left) = if '\n' ∈ left then none else some code := by
  have hspaces : ([] : List Char).all isSpacing = true := rfl
  exact code?_append hspaces h

/-- A lexeme is read by the reference reader as it is taken. -/
theorem Stage.Takes.scan?_eq (h : Takes stage lexeme next) (htaken : lexeme.TakenFrom text left) :
    stage.scan? text = next.scan? left := by
  cases h with
  | announced =>
      cases htaken
      rw [scan?, Line.scan?, afterWord?_self ⟨_, _, rfl, rfl⟩]
      rfl
  | status =>
      cases htaken
      rw [scan?, afterWord?_self ⟨_, _, rfl, rfl⟩]
      rfl
  | output =>
      cases htaken
      -- The two words that may stand here differ in their first letters.
      have hother : afterWord? "status" ("output".toList ++ left) = none := rfl
      rw [scan?, hother, afterWord?_self ⟨_, _, rfl, rfl⟩]
      rfl
  | dataform =>
      cases htaken
      rw [scan?, afterWord?_self ⟨_, _, rfl, rfl⟩]
      rfl
  | statusCode | dataformCode =>
      cases htaken with
      | code hcode =>
          rw [scan?, scan?, code?_self hcode]
          split <;> rfl
  | remark =>
      cases htaken with
      | remark hne hline hends =>
          rw [scan?, scan?]
          simp only [List.mem_append, hline, false_or]
          rcases left with _ | ⟨c, left⟩
          · rfl
          · rw [hends c rfl]
            simp only [List.mem_cons, true_or, if_true, List.all_cons]
            rfl

end

namespace Lexing

variable {lexing next : Lexing} {stage : Stage}

/-- Each step of the lexer keeps what the reference reader makes of the rest. -/
theorem Step.scan?_eq (h : Step lexing next) (hstage : lexing.read = stage.lexemes) :
    ∃ later : Stage, next.read = later.lexemes ∧ stage.scan? lexing.left = later.scan? next.left := by
  cases h with
  | skip hc => exact ⟨stage, hstage, stage.scan?_cons hc _⟩
  | take hallowed htaken =>
      subst hstage
      rcases Stage.exists_takes hallowed with ⟨later, htakes⟩
      exact ⟨later, htakes.lexemes_eq.symm, htakes.scan?_eq htaken⟩

/-- So does a run of it. -/
theorem scan?_eq_of_run {text : List Char} (h : ReflTransGen Step ⟨[], text⟩ lexing) :
    ∃ stage : Stage, lexing.read = stage.lexemes ∧ Line.scan? text = stage.scan? lexing.left := by
  induction h with
  | refl => exact ⟨.start, rfl, rfl⟩
  | tail _ hstep ih =>
      rcases ih with ⟨stage, hstage, hscan⟩
      rcases hstep.scan?_eq hstage with ⟨later, hlater, hstep⟩
      exact ⟨later, hlater, hscan.trans hstep⟩

/-- A step takes a character at least. -/
theorem Step.length_lt (h : Step lexing next) : next.left.length < lexing.left.length := by
  have hlength {taken left : List Char} (hne : taken ≠ []) :
      left.length < (taken ++ left).length := by
    rw [List.length_append]
    exact Nat.lt_add_of_pos_left (List.length_pos_iff.mpr hne)
  cases h with
  | skip => exact Nat.lt_succ_self _
  | take _ htaken =>
      cases htaken with
      | word _ hne => exact hlength hne
      | code hcode => exact hlength hcode.ne_nil
      | remark hne => exact hlength hne

/-- Every line comes to an end. -/
theorem exists_last (lexing : Lexing) :
    ∃ last, ReflTransGen Step lexing last ∧ ∀ next, ¬ Step last next := by
  induction hlength : lexing.left.length using Nat.strongRecOn generalizing lexing with
  | _ length ih =>
      by_cases h : ∃ next, Step lexing next
      · rcases h with ⟨next, hstep⟩
        rcases ih _ (hlength ▸ hstep.length_lt) next rfl with ⟨last, hrun, hend⟩
        exact ⟨last, hrun.head hstep, hend⟩
      · exact ⟨lexing, .refl, fun next hstep => h ⟨next, hstep⟩⟩

/-- What a stage goes on with can be taken, or the spacing in front of it. -/
theorem exists_step_of_takes {later : Stage} {lexeme : Lexeme} {spaces text left : List Char}
    (hspaces : spaces.all isSpacing = true) (h : stage.Takes lexeme later)
    (htaken : lexeme.TakenFrom text left) :
    ∃ next, Step ⟨stage.lexemes, spaces ++ text⟩ next := by
  rcases spaces with _ | ⟨c, spaces⟩
  · exact ⟨_, .take h.mayFollow htaken⟩
  · rw [List.all_cons, Bool.and_eq_true] at hspaces
    exact ⟨_, .skip hspaces.1⟩

/-- A word that is looked for can be taken. -/
theorem exists_step_of_afterWord? {later : Stage} {word : String} {text left : List Char}
    (hword : ∃ c chars, word.toList = c :: chars ∧ isSpacing c = false)
    (h : stage.Takes (.word word) later) (hafter : afterWord? word text = some left) :
    ∃ next, Step ⟨stage.lexemes, text⟩ next := by
  rcases (afterWord?_eq_some_iff (flush_append hword)).mp hafter with ⟨spaces, hspaces, rfl⟩
  refine exists_step_of_takes hspaces h (.word left ?_)
  rcases hword with ⟨c, chars, hword, -⟩
  rw [hword]
  exact List.cons_ne_nil _ _

/-- So can a code. -/
theorem exists_step_of_code? {later : Stage} {code : String} {text : List Char}
    (h : stage.Takes (.code code) later) (hcode : code? text = some code) :
    ∃ next, Step ⟨stage.lexemes, text⟩ next := by
  rcases code?_eq_some_iff.mp hcode with ⟨spaces, left, hspaces, rfl, hcode, -⟩
  exact exists_step_of_takes hspaces h (.code hcode)

/-- A line that is read is not stuck: it has ended, or there is a step. -/
theorem exists_step_of_scan? {text : List Char} {line : Line} (h : stage.scan? text = some line) :
    Accepts ⟨stage.lexemes, text⟩ line ∨ ∃ next, Step ⟨stage.lexemes, text⟩ next := by
  rcases text with _ | ⟨c, text⟩
  · exact .inl ⟨rfl, stage.sentence_of_scan?_nil h⟩
  refine .inr ?_
  cases stage with
  | start =>
      rcases Option.bind_eq_some_iff.mp h with ⟨left, hafter, -⟩
      exact exists_step_of_afterWord? ⟨_, _, rfl, rfl⟩ .announced hafter
  | announced =>
      rw [Stage.scan?] at h
      split at h
      · next hafter => exact exists_step_of_afterWord? ⟨_, _, rfl, rfl⟩ .status hafter
      · rcases Option.bind_eq_some_iff.mp h with ⟨left, hafter, -⟩
        exact exists_step_of_afterWord? ⟨_, _, rfl, rfl⟩ .output hafter
  | status =>
      rcases Option.bind_eq_some_iff.mp h with ⟨code, hcode, -⟩
      exact exists_step_of_code? (.statusCode code) hcode
  | output =>
      rcases Option.bind_eq_some_iff.mp h with ⟨left, hafter, -⟩
      exact exists_step_of_afterWord? ⟨_, _, rfl, rfl⟩ .dataform hafter
  | dataform =>
      rcases Option.bind_eq_some_iff.mp h with ⟨code, hcode, -⟩
      exact exists_step_of_code? (.dataformCode code) hcode
  | said said =>
      -- Whatever is left is a remark.
      rw [Stage.scan?] at h
      split at h
      · exact absurd h nofun
      · next hline =>
          have hremark : (Lexeme.remark (String.ofList (c :: text))).TakenFrom
              ((String.ofList (c :: text)).toList ++ []) [] := by
            refine .remark ?_ ?_ nofun
            · rw [String.toList_ofList]
              exact List.cons_ne_nil _ _
            · rwa [String.toList_ofList]
          rw [String.toList_ofList, List.append_nil] at hremark
          exact ⟨_, .take (Stage.Takes.remark said _).mayFollow hremark⟩
  | remarked =>
      rw [Stage.scan?] at h
      split at h
      · next hspaces =>
          rw [List.all_cons, Bool.and_eq_true] at hspaces
          exact ⟨_, .skip hspaces.1⟩
      · exact absurd h nofun

end Lexing

/-- A run that is accepted tells what the reference reader reads. -/
theorem scan?_of_accepts {text : List Char} {line : Line} {last : Lexing}
    (hrun : ReflTransGen Lexing.Step ⟨[], text⟩ last) (h : last.Accepts line) :
    Line.scan? text = some line := by
  rcases Lexing.scan?_eq_of_run hrun with ⟨stage, hstage, hscan⟩
  rw [hscan, h.1]
  exact stage.scan?_nil (hstage ▸ h.2)

/-- A run that gets stuck shows that it reads nothing. -/
theorem scan?_of_stuck {text : List Char} {last : Lexing}
    (hrun : ReflTransGen Lexing.Step ⟨[], text⟩ last) (h : last.Stuck) :
    Line.scan? text = none := by
  rcases Lexing.scan?_eq_of_run hrun with ⟨stage, hstage, hscan⟩
  rcases last with ⟨read, left⟩
  subst hstage
  refine Option.eq_none_iff_forall_ne_some.mpr fun line hline => ?_
  rcases Lexing.exists_step_of_scan? (hscan ▸ hline) with haccepts | ⟨next, hstep⟩
  · exact h.2 line haccepts
  · exact h.1 next hstep

/-- The reference reader parses lines by a contextual lexer. -/
theorem contextual_scan? : IsContextual Line.scan? where
  accepts := by
    intro text line hline
    rcases Lexing.exists_last ⟨[], text⟩ with ⟨last, hrun, hend⟩
    rcases Lexing.scan?_eq_of_run hrun with ⟨stage, hstage, hscan⟩
    rcases last with ⟨read, left⟩
    subst hstage
    rcases Lexing.exists_step_of_scan? (hscan ▸ hline) with haccepts | ⟨next, hstep⟩
    · exact ⟨_, hrun, haccepts⟩
    · exact absurd hstep (hend next)
  rejects := by
    intro text hnone
    rcases Lexing.exists_last ⟨[], text⟩ with ⟨last, hrun, hend⟩
    refine ⟨last, hrun, hend, fun line haccepts => ?_⟩
    rw [scan?_of_accepts hrun haccepts] at hnone
    exact absurd hnone nofun

/-- No other reader does so. -/
theorem IsContextual.eq_scan? {scan : List Char → Option Line} (h : IsContextual scan) :
    scan = Line.scan? := by
  funext text
  rcases hline : scan text with _ | line
  · rcases h.rejects hline with ⟨last, hrun, hstuck⟩
    rw [scan?_of_stuck hrun hstuck]
  · rcases h.accepts hline with ⟨last, hrun, haccepts⟩
    rw [scan?_of_accepts hrun haccepts]

end Szs

end Tptp
