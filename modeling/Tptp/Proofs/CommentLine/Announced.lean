import Tptp.Proofs.CommentLine.Lexing
import Tptp.Read

/-!
# What a Comment Line Announces

Comment lines in the words of the language of announcements.

A line announces a result code if it is made of certain words, spaced out or run together, of
which the last one is the name of the code. Behind that name there may be anything that
neither goes on with it nor starts another line. Names of codes begin one another, so this is
where the longest run of letters matters: a name that goes on is another name or none.

The statements hold for every reader that parses lines by a contextual lexer. There is only
one, so it is enough to look at the reference reader, word by word.

## Main definitions

* `Status.ontologyName`: The names of statuses.
* `Lettered`: Names that are letters throughout, as those of result codes are.
* `SpacedOut`: Words with spacing in front of each.
* `Announces`: Comment lines that announce a code in some words.

## Theorems

* `statusNamed?_eq_some_iff`: Statuses are looked up by their names.
* `Line.scan?_eq_some_iff`: The lines that are read.
* `Summary.ofComment?_eq_some_iff`: The comment lines that announce something.
* `Summary.recognized_exact`: Status and form of the data, for every such reader.
-/

namespace Tptp

/-- The name of a status in the ontology. -/
def Status.ontologyName : Status → String
  | .noSuccess code => Ontology.ontologyName code
  | .success code => Ontology.ontologyName code

/-- A name is made of letters, of one at least. -/
def Lettered (name : String) : Prop :=
  name.toList ≠ [] ∧ name.toList.all Char.isAlpha = true

instance (name : String) : Decidable (Lettered name) :=
  inferInstanceAs (Decidable (_ ∧ _))

/-- To see that all names are letters it is enough to go through the members. -/
theorem lettered_of_all {V : Type} [Ontology V]
    (h : ∀ v ∈ Vocabulary.members (V := V), Lettered (Ontology.ontologyName v)) (v : V) :
    Lettered (Ontology.ontologyName v) :=
  h v (Vocabulary.mem_members v)

theorem NoSuccess.lettered : ∀ code : NoSuccess, Lettered (Ontology.ontologyName code) :=
  lettered_of_all (by decide +kernel)

theorem Success.lettered : ∀ code : Success, Lettered (Ontology.ontologyName code) :=
  lettered_of_all (by decide +kernel)

theorem Dataform.lettered : ∀ form : Dataform, Lettered (Ontology.ontologyName form) :=
  lettered_of_all (by decide +kernel)

theorem Status.lettered (status : Status) : Lettered status.ontologyName := by
  cases status with
  | noSuccess code => exact code.lettered
  | success code => exact code.lettered

/-- No name is shared by the two kinds of statuses. -/
theorem ontologyName_ne (failed : NoSuccess) (succeeded : Success) :
    Ontology.ontologyName failed ≠ Ontology.ontologyName succeeded := by
  have hall : ∀ failed ∈ NoSuccess.all, ∀ succeeded ∈ Success.all,
      NoSuccess.longName failed ≠ Success.longName succeeded := by decide +kernel
  exact hall failed (Vocabulary.mem_members failed) succeeded (Vocabulary.mem_members succeeded)

namespace Szs

/-- Statuses are looked up by their names, whatever order the vocabularies are tried in. -/
theorem statusNamed?_eq_some_iff {name : String} {status : Status} :
    statusNamed? name = some status ↔ status.ontologyName = name := by
  rw [statusNamed?]
  split
  · next code hcode =>
      have hname := Ontology.ofOntologyName?_eq_some_iff.mp hcode
      cases status with
      | noSuccess other =>
          rw [Option.some.injEq, Status.noSuccess.injEq, Status.ontologyName,
            ← Ontology.ofOntologyName?_eq_some_iff, hcode, Option.some.injEq]
      | success other =>
          refine iff_of_false nofun fun hother => ?_
          exact ontologyName_ne code other (hname.trans hother.symm)
  · next hnone =>
      cases status with
      | noSuccess other =>
          refine iff_of_false (fun h => ?_) fun hother => ?_
          · rcases Option.map_eq_some_iff.mp h with ⟨code, -, hcode⟩
            exact absurd hcode nofun
          · rw [Ontology.ofOntologyName?_eq_some_iff.mpr hother] at hnone
            exact absurd hnone nofun
      | success other =>
          rw [Option.map_eq_some_iff]
          simp only [Ontology.ofOntologyName?_eq_some_iff, Status.success.injEq, exists_eq_right]
          exact Iff.rfl

/-- Words one after the other, each of them behind any spacing, and what is left. -/
inductive SpacedOut : List String → List Char → List Char → Prop where
  | nil (left : List Char) : SpacedOut [] left left
  | cons {spaces text left : List Char} {words : List String} (word : String)
      (hspaces : spaces.all isSpacing = true) (h : SpacedOut words text left) :
      SpacedOut (word :: words) (spaces ++ (word.toList ++ text)) left

/-- The words of a line. -/
def Line.words : Line → List String
  | .status code => ["SZS", "status", code]
  | .dataform code => ["SZS", "output", "start", code]

/-- The code of a line. -/
def Line.code : Line → String
  | .status code => code
  | .dataform code => code

/-- A comment is made of these words and a remark. The line may have another percent sign
    in front, and the remark neither goes on with the last word nor starts another line. -/
def Announces (words : List String) (comment : List Char) : Prop :=
  ∃ blanks mark line remark,
    comment = blanks ++ (mark ++ line) ∧ blanks.all Text.isBlank = true ∧
      (mark = [] ∨ mark = ['%']) ∧ SpacedOut words line remark ∧
      (∀ c ∈ remark.head?, c.isAlpha = false) ∧ '\n' ∉ remark

namespace Line

variable {text left remark : List Char} {word code : String} {words : List String} {line : Line}

/-- The first word is looked for, and the others behind it. -/
theorem exists_spacedOut_cons {p : List Char → Prop} (hword : ∀ left, Flush (word.toList ++ left)) :
    (∃ remark, SpacedOut (word :: words) text remark ∧ p remark) ↔
      ∃ left, afterWord? word text = some left ∧ ∃ remark, SpacedOut words left remark ∧ p remark := by
  constructor
  · rintro ⟨remark, hspaced, h⟩
    cases hspaced with
    | cons _ hspaces hspaced =>
        exact ⟨_, afterWord?_append hspaces (hword _), remark, hspaced, h⟩
  · rintro ⟨left, hafter, remark, hspaced, h⟩
    rcases (afterWord?_eq_some_iff hword).mp hafter with ⟨spaces, hspaces, rfl⟩
    exact ⟨remark, .cons word hspaces hspaced, h⟩

/-- A code is looked for, and the rest of the line is a remark. -/
theorem code?_iff : code? text = some code ↔
    ∃ remark, SpacedOut [code] text remark ∧ IsCode code remark ∧ '\n' ∉ remark := by
  rw [code?_eq_some_iff]
  constructor
  · rintro ⟨spaces, remark, hspaces, rfl, h⟩
    exact ⟨remark, .cons code hspaces (.nil remark), h⟩
  · rintro ⟨remark, hspaced, h⟩
    cases hspaced with
    | cons _ hspaces hspaced =>
        cases hspaced
        exact ⟨_, remark, hspaces, rfl, h⟩

/-- A line that goes on with one of the two words does not go on with the other. -/
theorem afterWord?_status_eq_none (h : afterWord? "output" text = some left) :
    afterWord? "status" text = none := by
  rcases (afterWord?_eq_some_iff (flush_append ⟨_, _, rfl, rfl⟩)).mp h with ⟨spaces, hspaces, rfl⟩
  rw [afterWord?, dropWhile_isSpacing hspaces (flush_append ⟨_, _, rfl, rfl⟩ _)]
  rfl

/-- The lines that give a status, as they are gone through. -/
theorem scan?_eq_status_iff : scan? text = some (.status code) ↔
    ∃ left, afterWord? "SZS" text = some left ∧
      ∃ after, afterWord? "status" left = some after ∧ code? after = some code := by
  refine Option.bind_eq_some_iff.trans (exists_congr fun left => and_congr_right fun _ => ?_)
  rcases hstatus : afterWord? "status" left with _ | after
  · simp only [Option.bind_eq_bind, Option.bind_eq_some_iff, Option.pure_def, Option.some.injEq,
      reduceCtorEq, and_false, false_and, exists_false]
  · simp only [Option.bind_eq_bind, Option.bind_eq_some_iff, Option.pure_def, Option.some.injEq,
      Line.status.injEq, exists_eq_right, exists_eq_left']

/-- The lines that give a form of data, as they are gone through. -/
theorem scan?_eq_dataform_iff : scan? text = some (.dataform code) ↔
    ∃ left, afterWord? "SZS" text = some left ∧
      ∃ after, afterWord? "output" left = some after ∧
        ∃ last, afterWord? "start" after = some last ∧ code? last = some code := by
  refine Option.bind_eq_some_iff.trans (exists_congr fun left => and_congr_right fun _ => ?_)
  rcases hstatus : afterWord? "status" left with _ | after
  · simp only [Option.bind_eq_bind, Option.bind_eq_some_iff, Option.pure_def, Option.some.injEq,
      Line.dataform.injEq, exists_eq_right]
  · refine iff_of_false (fun h => ?_) fun h => ?_
    · simp only [Option.bind_eq_bind, Option.bind_eq_some_iff, Option.pure_def, Option.some.injEq,
        reduceCtorEq, and_false, exists_false] at h
    · rcases h with ⟨_, houtput, -⟩
      rw [afterWord?_status_eq_none houtput] at hstatus
      exact absurd hstatus nofun

/-- What is read from a line stands there, word by word. -/
theorem scan?_eq_some_iff : scan? text = some line ↔
    ∃ remark, SpacedOut line.words text remark ∧ IsCode line.code remark ∧ '\n' ∉ remark := by
  have hszs : ∀ left, Flush ("SZS".toList ++ left) := flush_append ⟨_, _, rfl, rfl⟩
  have hstatus : ∀ left, Flush ("status".toList ++ left) := flush_append ⟨_, _, rfl, rfl⟩
  have houtput : ∀ left, Flush ("output".toList ++ left) := flush_append ⟨_, _, rfl, rfl⟩
  have hstart : ∀ left, Flush ("start".toList ++ left) := flush_append ⟨_, _, rfl, rfl⟩
  cases line with
  | status code =>
      simp only [scan?_eq_status_iff, words, Line.code, exists_spacedOut_cons hszs,
        exists_spacedOut_cons hstatus, code?_iff]
  | dataform code =>
      simp only [scan?_eq_dataform_iff, words, Line.code, exists_spacedOut_cons hszs,
        exists_spacedOut_cons houtput, exists_spacedOut_cons hstart, code?_iff]

/-- Statuses are given by their names. -/
theorem summary?_eq_status_iff {status : Status} :
    line.summary? = some ⟨some status, none⟩ ↔ line = .status status.ontologyName := by
  cases line with
  | status code =>
      simp only [summary?, Option.bind_eq_bind, Option.bind_eq_some_iff, Option.pure_def,
        Option.some.injEq, Summary.mk.injEq, and_true, exists_eq_right, Line.status.injEq]
      exact statusNamed?_eq_some_iff.trans eq_comm
  | dataform code =>
      simp only [summary?, Option.bind_eq_bind, Option.bind_eq_some_iff, Option.pure_def,
        Option.some.injEq, Summary.mk.injEq, reduceCtorEq, and_false, exists_false]

/-- Forms of data are given by their names. -/
theorem summary?_eq_dataform_iff {form : Dataform} :
    line.summary? = some ⟨none, some form⟩ ↔ line = .dataform (Ontology.ontologyName form) := by
  cases line with
  | status code =>
      simp only [summary?, Option.bind_eq_bind, Option.bind_eq_some_iff, Option.pure_def,
        Option.some.injEq, Summary.mk.injEq, reduceCtorEq, and_false, exists_false]
  | dataform code =>
      simp only [summary?, Option.bind_eq_bind, Option.bind_eq_some_iff, Option.pure_def,
        Option.some.injEq, Summary.mk.injEq, true_and, exists_eq_right, Line.dataform.injEq]
      exact Ontology.ofOntologyName?_eq_some_iff.trans eq_comm

/-- Nothing else is announced, and never both at once. -/
theorem of_summary?_eq_some {summary : Summary} (h : line.summary? = some summary) :
    (∃ status, summary = ⟨some status, none⟩) ∨ ∃ form, summary = ⟨none, some form⟩ := by
  cases line with
  | status code =>
      rcases Option.bind_eq_some_iff.mp h with ⟨status, -, hsummary⟩
      exact .inl ⟨status, (Option.some.inj hsummary).symm⟩
  | dataform code =>
      rcases Option.bind_eq_some_iff.mp h with ⟨form, -, hsummary⟩
      exact .inr ⟨form, (Option.some.inj hsummary).symm⟩

end Line

/-- A comment line is what it says, and in front of it blanks and perhaps a percent sign. -/
theorem exists_body (comment : List Char) : ∃ blanks mark,
    comment = blanks ++ (mark ++ body comment) ∧ blanks.all Text.isBlank = true ∧
      (mark = [] ∨ mark = ['%']) := by
  have hcomment : comment =
      comment.takeWhile Text.isBlank ++ comment.dropWhile Text.isBlank :=
    List.takeWhile_append_dropWhile.symm
  rw [body]
  by_cases hmark : (comment.dropWhile Text.isBlank).head? = some '%'
  · rcases List.head?_eq_some_iff.mp hmark with ⟨line, hline⟩
    refine ⟨comment.takeWhile Text.isBlank, ['%'], ?_, List.all_takeWhile, .inr rfl⟩
    rw [if_pos hmark, hline, List.tail_cons, List.singleton_append, ← hline]
    exact hcomment
  · refine ⟨comment.takeWhile Text.isBlank, [], ?_, List.all_takeWhile, .inl rfl⟩
    rw [if_neg hmark, List.nil_append]
    exact hcomment

/-- A percent sign is passed over, with the blanks in front of it. -/
theorem body_append {blanks line : List Char} (hblanks : blanks.all Text.isBlank = true) :
    body (blanks ++ '%' :: line) = line := by
  have hdrop : (blanks ++ '%' :: line).dropWhile Text.isBlank = '%' :: line :=
    List.dropWhile_append_of_pos (List.all_eq_true.mp hblanks)
  rw [body, hdrop]
  rfl

/-- Blanks are passed over, the spacing in front of the first word among them. -/
theorem body_spaced {blanks spaces line : List Char} (hblanks : blanks.all Text.isBlank = true)
    (hspaces : spaces.all isSpacing = true) :
    body (blanks ++ (spaces ++ ("SZS".toList ++ line))) = "SZS".toList ++ line := by
  have hspacing : ∀ c ∈ spaces, Text.isBlank c = true := fun c hc => by
    have hc := List.all_eq_true.mp hspaces c hc
    rw [isSpacing, Bool.or_eq_true, beq_iff_eq, beq_iff_eq] at hc
    rcases hc with rfl | rfl <;> decide
  have hdrop : (blanks ++ (spaces ++ ("SZS".toList ++ line))).dropWhile Text.isBlank =
      "SZS".toList ++ line := by
    rw [List.dropWhile_append_of_pos (List.all_eq_true.mp hblanks),
      List.dropWhile_append_of_pos hspacing]
    rfl
  rw [body, hdrop]
  rfl

/-- A line is read from a comment exactly if the comment announces its code in its words. -/
theorem scan?_body_iff {line : Line} {comment : List Char} (hcode : Lettered line.code) :
    Line.scan? (body comment) = some line ↔ Announces line.words comment := by
  rw [Line.scan?_eq_some_iff]
  constructor
  · rintro ⟨remark, hspaced, hcode, hline⟩
    rcases exists_body comment with ⟨blanks, mark, hcomment, hblanks, hmark⟩
    exact ⟨blanks, mark, _, remark, hcomment, hblanks, hmark, hspaced, hcode.ends, hline⟩
  · rintro ⟨blanks, mark, text, remark, rfl, hblanks, hmark, hspaced, hends, hline⟩
    refine ⟨remark, ?_, ⟨hcode.1, hcode.2, hends⟩, hline⟩
    rcases hmark with rfl | rfl
    · rcases (show ∃ words, line.words = "SZS" :: words by cases line <;> exact ⟨_, rfl⟩) with
        ⟨words, hwords⟩
      rw [hwords] at hspaced ⊢
      cases hspaced with
      | cons _ hspaces hspaced =>
          rw [List.nil_append, body_spaced hblanks hspaces]
          have hnone : ([] : List Char).all isSpacing = true := rfl
          exact .cons "SZS" hnone hspaced
    · rw [List.singleton_append, body_append hblanks]
      exact hspaced

namespace Summary

/-- What is announced is what the line says. -/
theorem ofCommentBy?_eq_some_iff {scan : List Char → Option Line} {comment : List Char}
    {summary : Summary} : ofCommentBy? scan comment = some summary ↔
      ∃ line, scan (body comment) = some line ∧ line.summary? = some summary :=
  Option.bind_eq_some_iff

/-- Comment lines announce a status or a form of data exactly if they are made of the words for
    it, the name of the status or the form, and a remark that does not go on with the name and
    does not break the line. In every other case they announce nothing. This is so whatever
    parser reads the lines, as long as its lexer is guided by the grammar, and the reader of
    comment lines works with such a parser. -/
theorem recognized_exact {scan : List Char → Option Line} (hscan : IsContextual scan)
    (comment : String) :
    (∀ status : Status, ofCommentBy? scan comment.toList = some ⟨some status, none⟩ ↔
        Announces ["SZS", "status", status.ontologyName] comment.toList) ∧
      (∀ form : Dataform, ofCommentBy? scan comment.toList = some ⟨none, some form⟩ ↔
        Announces ["SZS", "output", "start", Ontology.ontologyName form] comment.toList) ∧
      ((∀ status : Status,
          ¬ Announces ["SZS", "status", status.ontologyName] comment.toList) →
        (∀ form : Dataform,
          ¬ Announces ["SZS", "output", "start", Ontology.ontologyName form] comment.toList) →
        ofCommentBy? scan comment.toList = none) ∧
      Read.announcement comment = ofCommentBy? scan comment.toList := by
  obtain rfl := hscan.eq_scan?
  have hstatus (status : Status) :
      ofCommentBy? Line.scan? comment.toList = some ⟨some status, none⟩ ↔
        Announces ["SZS", "status", status.ontologyName] comment.toList := by
    simp only [ofCommentBy?_eq_some_iff, Line.summary?_eq_status_iff, exists_eq_right]
    exact scan?_body_iff status.lettered
  have hform (form : Dataform) :
      ofCommentBy? Line.scan? comment.toList = some ⟨none, some form⟩ ↔
        Announces ["SZS", "output", "start", Ontology.ontologyName form] comment.toList := by
    simp only [ofCommentBy?_eq_some_iff, Line.summary?_eq_dataform_iff, exists_eq_right]
    exact scan?_body_iff form.lettered
  refine ⟨hstatus, hform, fun hnoStatus hnoForm => ?_, rfl⟩
  refine Option.eq_none_iff_forall_ne_some.mpr fun summary hsummary => ?_
  rcases ofCommentBy?_eq_some_iff.mp hsummary with ⟨line, -, hline⟩
  rcases Line.of_summary?_eq_some hline with ⟨status, rfl⟩ | ⟨form, rfl⟩
  · exact hnoStatus status ((hstatus status).mp hsummary)
  · exact hnoForm form ((hform form).mp hsummary)

/-- Words may be run together, and a name that another one begins with is not read in place of
    the longer name. -/
theorem recognized_runTogether :
    IsContextual Line.scan? ∧
      Announces ["SZS", "status", "SatisfiableConclusionContradictoryAxioms"]
        " % SZSstatus SatisfiableConclusionContradictoryAxioms: for x".toList ∧
      ¬ Announces ["SZS", "status", "Satisfiable"]
        " % SZSstatus SatisfiableConclusionContradictoryAxioms: for x".toList := by
  rcases recognized_exact contextual_scan?
    " % SZSstatus SatisfiableConclusionContradictoryAxioms: for x" with ⟨hstatus, -⟩
  refine ⟨contextual_scan?, ?_, fun hshorter => ?_⟩
  · exact (hstatus (.success .satisfiableConclusionContradictoryAxioms)).mp (by decide +kernel)
  · exact absurd ((hstatus (.success .satisfiable)).mpr hshorter) (by decide +kernel)

end Summary

end Szs

end Tptp
