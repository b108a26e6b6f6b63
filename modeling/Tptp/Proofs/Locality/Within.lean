import Tptp.Proofs.Composed.Basic
import Tptp.Proofs.Lexical.Number
import Tptp.Proofs.Locality.Path

/-!
# Staying on the Path

Composed parsers move along the path of a text, and fail at places of the text.

This concerns the failures that were dropped as well as the one that ended the
parser. No failure lies in front of the place where the parser started, which is why
what has been read can be left out of account when an error is looked for.

## Main definitions

* `Failure.Inside`: A failure at a place of a text.
* `Within`: A parser started at a text and stayed in it.

## Theorems

* `Within.bind`, `Within.orElse`, `Within.many`: By combinators.
* `Composed.within`: Composed parsers stay in the text.
-/

namespace Tptp

namespace Reading

variable {α β : Type}

/-- The failure arose at a place of the text. -/
def Failure.Inside (text : List Char) (failure : Failure) : Prop :=
  0 ≤ failure.left ∧ failure.left ≤ text.length

/-- The result was reached on the path from the start of the text, and failures arose
    at places of the text. -/
structure Within (text : List Char) (result : Result α) : Prop where
  path : ∀ {value after}, result.outcome = .done value after →
    ∃ left, after = .ofList left ∧ Path text left
  failed : ∀ {failure}, result.outcome = .failed failure → failure.Inside text
  dropped : ∀ failure ∈ result.dropped, failure.Inside text

theorem Failure.Inside.mono {text left : List Char} {failure : Failure}
    (h : failure.Inside left) (hpath : Path text left) : failure.Inside text := by
  have hle := hpath.length_le
  exact ⟨h.1, by have := h.2; omega⟩

theorem Failure.Inside.within {text : List Char} {failure : Failure} (h : failure.Inside text)
    (label : String) : (failure.within label).Inside text :=
  h

/-- What is on a joined record is on one of the two. -/
theorem Failure.mem_later {a b : Option Failure} {failure : Failure}
    (h : failure ∈ Failure.later a b) : failure ∈ a ∨ failure ∈ b := by
  rcases a with _ | a
  · rw [Failure.none_later] at h
    exact .inr h
  rcases b with _ | b
  · rw [Failure.later_none] at h
    exact .inl h
  · rw [Failure.later] at h
    split at h
    · exact .inr h
    · exact .inl h

namespace Within

variable {p q : Parser α} {text : List Char}

/-- A match up to a place on the path. -/
theorem done {value : α} {left : List Char} {dropped : Option Failure} (h : Path text left)
    (hdropped : ∀ failure ∈ dropped, failure.Inside text) :
    Within text (⟨.done value (.ofList left), dropped⟩ : Result α) := by
  refine ⟨fun hdone => ?_, fun hfailed => ?_, hdropped⟩
  · rw [Outcome.done.injEq] at hdone
    exact ⟨left, hdone.2.symm, h⟩
  · exact absurd hfailed (by simp only [reduceCtorEq, not_false_eq_true])

theorem failure {failure : Failure} {dropped : Option Failure} (h : failure.Inside text)
    (hdropped : ∀ failure ∈ dropped, failure.Inside text) :
    Within text (⟨.failed failure, dropped⟩ : Result α) := by
  refine ⟨fun hdone => ?_, fun hfailed => ?_, hdropped⟩
  · exact absurd hdone (by simp only [reduceCtorEq, not_false_eq_true])
  · exact Outcome.failed.inj hfailed ▸ h

theorem aborted {reason : Abort} {dropped : Option Failure}
    (hdropped : ∀ failure ∈ dropped, failure.Inside text) :
    Within text (⟨.aborted reason, dropped⟩ : Result α) :=
  ⟨fun hdone => absurd hdone (by simp only [reduceCtorEq, not_false_eq_true]),
    fun hfailed => absurd hfailed (by simp only [reduceCtorEq, not_false_eq_true]), hdropped⟩

theorem pure {value : α} {left : List Char} (h : Path text left) :
    Within text (⟨.done value (.ofList left), none⟩ : Result α) :=
  done h fun _ hmem => absurd hmem (Option.not_mem_none _)

theorem fail (label : String) {left : List Char} (h : Path text left) :
    Within text (Parser.fail label (Rest.ofList left) : Result α) := by
  refine failure ⟨?_, ?_⟩ fun _ hmem => absurd hmem (Option.not_mem_none _)
  · change 0 ≤ (Rest.ofList left).left
    rw [Rest.left_ofList]
    exact Int.natCast_nonneg _
  · change (Rest.ofList left).left ≤ _
    rw [Rest.left_ofList]
    exact Int.ofNat_le.mpr h.length_le

theorem abort (reason : Abort) (rest : Rest) :
    Within text (Parser.abort reason rest : Result α) :=
  aborted fun _ hmem => absurd hmem (Option.not_mem_none _)

/-- A result at a later place, behind failures at places of the text. -/
theorem after {result : Result α} {left : List Char} {record : Option Failure}
    (h : Within left result) (hpath : Path text left)
    (hrecord : ∀ failure ∈ record, failure.Inside text) :
    Within text (result.after record) := by
  constructor
  · intro value after hdone
    rcases h.path hdone with ⟨later, rfl, hlater⟩
    exact ⟨later, rfl, hpath.trans hlater⟩
  · exact fun hfailed => (h.failed hfailed).mono hpath
  · intro failure hmem
    rcases Failure.mem_later hmem with hmem | hmem
    · exact hrecord failure hmem
    · exact (h.dropped failure hmem).mono hpath

theorem cons {value : α} {result : Result (List α)} (h : Within text result) :
    Within text (result.cons value) := by
  rcases result with ⟨⟨values, after⟩ | failure | _, dropped⟩
  · rcases h.path rfl with ⟨left, rfl, hpath⟩
    exact done hpath h.dropped
  · exact .failure (h.failed rfl) h.dropped
  · exact aborted h.dropped

theorem bind {next : α → Parser β} (hp : Within text (p (.ofList text)))
    (hnext : ∀ {a left}, (p (.ofList text)).outcome = .done a (.ofList left) →
      Within left (next a (.ofList left))) : Within text ((p >>= next) (.ofList text)) := by
  rw [Parser.bind_apply]
  rcases hresult : p (.ofList text) with ⟨⟨a, after⟩ | failure | reason, dropped⟩
  · rw [hresult] at hp hnext
    rcases hp.path rfl with ⟨left, rfl, hpath⟩
    exact (hnext rfl).after hpath hp.dropped
  · rw [hresult] at hp
    exact .failure (hp.failed rfl) hp.dropped
  · rw [hresult] at hp
    exact aborted hp.dropped

theorem labeled (label : String) (hp : Within text (p (.ofList text))) :
    Within text (Parser.labeled label p (.ofList text)) := by
  rw [Parser.labeled]
  rcases hresult : p (.ofList text) with ⟨_ | failure | _, dropped⟩
  · rw [hresult] at hp
    exact hp
  · rw [hresult] at hp
    exact .failure ((hp.failed rfl).within label) hp.dropped
  · rw [hresult] at hp
    exact hp

/-- A failure and those that were dropped before it. -/
theorem record {failure : Failure} {dropped : Option Failure}
    (h : Within text (⟨.failed failure, dropped⟩ : Result α)) :
    ∀ f ∈ Failure.later dropped (some failure), f.Inside text := by
  intro f hmem
  rcases Failure.mem_later hmem with hmem | hmem
  · exact h.dropped f hmem
  · rw [Option.mem_some_iff] at hmem
    exact hmem ▸ h.failed rfl

theorem orElse (hp : Within text (p (.ofList text))) (hq : Within text (q (.ofList text))) :
    Within text ((p <|> q) (.ofList text)) := by
  change Within text (Parser.orElse p q (.ofList text))
  rw [Parser.orElse]
  rcases hresult : p (.ofList text) with ⟨_ | failure | _, dropped⟩
  · rw [hresult] at hp
    exact hp
  · rw [hresult] at hp
    exact hq.after (.here text) hp.record
  · rw [hresult] at hp
    exact hp

theorem many (hp : ∀ text, Within text (p (.ofList text))) (text : List Char) :
    Within text (Parser.many p (.ofList text)) := by
  induction hlength : text.length using Nat.strongRecOn generalizing text with
  | _ length ih =>
      have hitem := hp text
      rw [Parser.many]
      rcases hresult : p (.ofList text) with ⟨⟨value, after⟩ | failure | _, dropped⟩
      · rw [hresult] at hitem
        rcases hitem.path rfl with ⟨left, rfl, hpath⟩
        simp only
        split
        · next hlt => exact ((ih left.length (hlength ▸ hlt) left rfl).after hpath hitem.dropped).cons
        · exact done hpath hitem.dropped
      · rw [hresult] at hitem
        exact done (.here text) hitem.record
      · rw [hresult] at hitem
        exact aborted hitem.dropped

theorem repeatWhile (inSight : Rest → Bool) (hp : ∀ text, Within text (p (.ofList text)))
    (text : List Char) : Within text (Parser.repeatWhile inSight p (.ofList text)) := by
  induction hlength : text.length using Nat.strongRecOn generalizing text with
  | _ length ih =>
      have hitem := hp text
      rw [Parser.repeatWhile]
      split
      · rcases hresult : p (.ofList text) with ⟨⟨value, after⟩ | failure | _, dropped⟩
        · rw [hresult] at hitem
          rcases hitem.path rfl with ⟨left, rfl, hpath⟩
          simp only
          split
          · next hlt =>
              exact ((ih left.length (hlength ▸ hlt) left rfl).after hpath hitem.dropped).cons
          · exact done hpath hitem.dropped
        · rw [hresult] at hitem
          exact .failure (hitem.failed rfl) hitem.dropped
        · rw [hresult] at hitem
          exact aborted hitem.dropped
      · exact pure (.here text)

end Within

/-- Plain characters are steps. -/
theorem walks_of_isPlain {c : Char} (h : isPlain c = true) : walks c = true := by
  rw [walks, decide_eq_true_eq]
  intro hmem
  have hall : ∀ d ∈ ['%', '/', '\x27', '"'], isPlain d = false :=
    List.all_iff_forall_prop.mp (by decide)
  rw [hall c hmem] at h
  exact Bool.false_ne_true h

/-- Word characters are plain. -/
theorem isPlain_of_isWordChar {c : Char} (h : Text.isWordChar c = true) : isPlain c = true := by
  have hlayout : Text.opensLayout c = false := by
    rw [← Bool.not_eq_true]
    intro hc
    rw [Text.not_isWordChar_of_opensLayout hc] at h
    exact Bool.false_ne_true h
  rw [isPlain, hlayout, Bool.not_false, Bool.true_and, decide_eq_true_eq]
  intro hmem
  have hall : ∀ d ∈ ['\x27', '"', '.'], Text.isWordChar d = false :=
    List.all_iff_forall_prop.mp (by decide)
  rw [hall c hmem] at h
  exact Bool.false_ne_true h

theorem path_of_isPlain {word : List Char} (h : word.all isPlain = true) (left : List Char) :
    Path (word ++ left) left :=
  path_of_walks (fun c hc => walks_of_isPlain (List.all_eq_true.mp h c hc)) left

theorem path_of_isWordChar {word : List Char} (h : word.all Text.isWordChar = true)
    (left : List Char) : Path (word ++ left) left :=
  path_of_isPlain (List.all_eq_true.mpr fun c hc =>
    isPlain_of_isWordChar (List.all_eq_true.mp h c hc)) left

/-- Every character of a literal is a step. -/
theorem walks_of_mem_chars {literal : DecimalLiteral} (h : literal.Valid) :
    ∀ c ∈ literal.chars, walks c = true := by
  have hdigits : ∀ {digits}, Digits digits → ∀ c ∈ digits, walks c = true := fun hd c hc =>
    walks_of_isPlain (isPlain_of_isWordChar (Text.isWordChar_of_isDigit (hd.2 c hc)))
  have hsign : ∀ {sign}, IsSign sign → ∀ c ∈ sign.toList, walks c = true := by
    intro sign hsign c hc
    rcases hsign c (Option.mem_toList.mp hc) with rfl | rfl <;> decide
  intro c hc
  -- A sign, digits, a fraction or an exponent.
  simp only [DecimalLiteral.chars, List.mem_append] at hc
  rcases hc with ((hc | hc) | hc) | hc
  · exact hsign h.sign c hc
  · exact hdigits h.whole c hc
  · rcases hfraction : literal.fraction with _ | digits
    · rw [hfraction] at hc
      exact absurd hc List.not_mem_nil
    · rw [hfraction] at hc
      rcases List.mem_cons.mp hc with rfl | hc
      · decide
      · exact hdigits (h.fraction digits hfraction) c hc
  · rcases hexponent : literal.exponent with _ | e
    · rw [hexponent] at hc
      exact absurd hc List.not_mem_nil
    · rcases h.exponent e hexponent with ⟨hmark, hesign, hedigits⟩
      rw [hexponent, Option.map_some, Option.getD_some, ExponentLiteral.chars] at hc
      rcases List.mem_cons.mp hc with rfl | hc
      · rcases hmark with hmark | hmark <;> rw [hmark] <;> decide
      · rcases List.mem_append.mp hc with hc | hc
        · exact hsign hesign c hc
        · exact hdigits hedigits c hc

/-- Behind the longest run of a class is what stands from its end. -/
theorem drop_takeWhile (p : Char → Bool) (text : List Char) :
    text.drop (text.takeWhile p).length = text.dropWhile p :=
  (Rest.ofList text).chars_skipWhile p

section

variable {text : List Char}

theorem within_expect {label sign : String} {test : Rest → List Char → Bool}
    (htest : ∀ {rest chars}, test rest chars = true → rest.startsWith chars = true)
    (hpath : ∀ left, text = sign.toList ++ left → Path text left) :
    Within text (Parser.expect label sign test (.ofList text)) := by
  rw [Parser.expect]
  split
  · next h =>
      have hstarts := htest h
      rw [Rest.startsWith_ofList_iff] at hstarts
      rcases hstarts with ⟨left, rfl⟩
      rw [Rest.drop_ofList, List.drop_left]
      exact .pure (hpath left rfl)
  · exact .fail _ (.here text)

theorem within_slash (h : Significant text) :
    Within text (Parser.character "/" (.ofList text)) := by
  refine within_expect (fun h => h) ?_
  rintro left rfl
  exact .step h.advance_slash (.here left)

theorem within_named {V : Type} [Vocabulary V]
    (hplain : ∀ v : V, (Vocabulary.canonical v).toList.all isPlain = true) :
    Within text (Parser.named V (.ofList text)) := by
  rw [Parser.named]
  split
  · next name v hfind =>
      rcases stands_of_find? hfind with ⟨rfl, hstands⟩
      rcases hstands.starts with ⟨left, rfl⟩
      rw [Rest.drop_ofList, List.drop_left]
      exact .pure (path_of_isPlain (hplain v) left)
  · exact .fail _ (.here text)

theorem within_word (label : String) {first : Char → Bool}
    (hfirst : ∀ c, first c = true → Text.isWordChar c = true) :
    Within text (Parser.word label first (.ofList text)) := by
  rw [Parser.word]
  rcases text with _ | ⟨c, rest⟩
  · exact .fail _ (.here [])
  · simp only [Rest.chars_ofList]
    split
    · next hc =>
        have hall : (c :: rest.takeWhile Text.isWordChar).all Text.isWordChar = true := by
          rw [List.all_cons, hfirst c hc, List.all_takeWhile, Bool.and_self]
        have hpath := path_of_isWordChar hall (rest.dropWhile Text.isWordChar)
        rw [List.cons_append, List.takeWhile_append_dropWhile] at hpath
        rw [Rest.drop_ofList, List.length_cons, List.drop_succ_cons, drop_takeWhile]
        exact .pure hpath
    · exact .fail _ (.here _)

theorem within_quoted {quote : Char} (hquote : quote = '\x27' ∨ quote = '"') :
    Within text (Parser.quoted quote (.ofList text)) := by
  rw [Parser.quoted]
  split
  · next hopens =>
      rcases List.head?_eq_some_iff.mp (opensWith_ofList_iff.mp hopens) with ⟨rest, rfl⟩
      split
      · next value extent hdecode =>
          rw [Rest.chars_ofList, List.tail_cons] at hdecode
          rw [Rest.drop_ofList, List.drop_succ_cons]
          refine .pure (.step ?_ (.here _))
          rw [advance_quote hquote, hdecode, Option.map_some]
      · exact .fail _ (.here _)
  · exact .fail _ (.here _)

theorem within_numeral : Within text (Parser.numeral (.ofList text)) := by
  rw [Parser.numeral]
  split
  · exact .fail _ (.here _)
  · split
    · exact .abort _ _
    · have hdigits : (text.takeWhile Char.isDigit).all Text.isWordChar = true :=
        List.all_eq_true.mpr fun c hc =>
          Text.isWordChar_of_isDigit (List.all_eq_true.mp List.all_takeWhile c hc)
      have hpath := path_of_isWordChar hdigits (text.dropWhile Char.isDigit)
      rw [List.takeWhile_append_dropWhile] at hpath
      rw [Rest.drop_ofList, Rest.span, Rest.chars_ofList, drop_takeWhile]
      exact .pure hpath

theorem within_decimalLiteral : Within text (Parser.decimalLiteral (.ofList text)) := by
  rw [Parser.decimalLiteral]
  split
  · next literal hscan =>
      rcases DecimalLiteral.isPrefix_chars hscan with ⟨left, htext⟩
      rw [Rest.chars_ofList] at hscan htext
      subst htext
      rw [Rest.drop_ofList, List.drop_left]
      exact .pure (path_of_walks (walks_of_mem_chars (DecimalLiteral.valid_of_scan? hscan)) left)
  · exact .fail _ (.here _)

theorem within_skipLayout : Within text (Parser.skipLayout (.ofList text)) := by
  rcases exists_skips text with ⟨left, hskips, hleft | hleft⟩
  · rw [skipLayout_eq_of_skips hskips, skipLayout_significant hleft]
    exact .pure hskips.path
  · rw [skipLayout_eq_of_skips hskips, skipLayout_unclosed hleft]
    exact .fail _ hskips.path

/-- A text that starts with a plain character goes on behind it. -/
theorem within_behind {α : Type} {p q : Parser α} {c : Char} (hc : isPlain c = true)
    (hp : ∀ text, Within text (p (.ofList text))) (hq : Within text (q (.ofList text))) :
    Within text (Parser.ifOpens c (Parser.take 1 >>= fun _ => p) q (.ofList text)) := by
  change Within text (if (Rest.ofList text).opensWith c then _ else _)
  split
  · next hopens =>
      rcases List.head?_eq_some_iff.mp (opensWith_ofList_iff.mp hopens) with ⟨rest, rfl⟩
      have hstep : Path (c :: rest) rest :=
        .step (advance_of_walks (walks_of_isPlain hc) rest) (.here rest)
      exact (hp rest).after hstep fun _ hmem => absurd hmem (Option.not_mem_none _)
  · exact hq

end

/-- A sign of characters that are steps, and the layout behind it. -/
theorem within_operator {sign : String} (h : ∀ c ∈ sign.toList, walks c = true)
    (text : List Char) : Within text (Parser.operator sign (.ofList text)) := by
  refine .bind (within_expect (fun h => h) ?_) fun _ => .bind within_skipLayout fun _ =>
    .pure (.here _)
  rintro left rfl
  exact path_of_walks h left

/-- Brackets are steps. -/
theorem walks_of_isBracketPair {opening closing : String} (h : IsBracketPair opening closing) :
    (∀ c ∈ opening.toList, walks c = true) ∧ ∀ c ∈ closing.toList, walks c = true := by
  rcases h with ⟨rfl, rfl⟩ | ⟨rfl, rfl⟩
  · exact ⟨List.all_eq_true.mp (by decide), List.all_eq_true.mp (by decide)⟩
  · exact ⟨List.all_eq_true.mp (by decide), List.all_eq_true.mp (by decide)⟩

/-- Composed parsers stay in the text. -/
theorem Composed.within {stops commas : Bool} {p : Parser α} (h : Composed stops commas p)
    (text : List Char) : Within text (p (.ofList text)) := by
  induction h generalizing text with
  | pure a => exact .pure (.here text)
  | fail label => exact .fail label (.here text)
  | abort reason => exact .abort reason _
  | bind _ _ ihp ihnext => exact .bind (ihp text) fun _ => ihnext _ _
  | labeled label _ ih => exact .labeled label (ih text)
  | orElse _ _ ihp ihq => exact .orElse (ihp text) (ihq text)
  | look _ _ _ ih => exact ih _ text
  | many _ _ ih => exact .many ih text
  | repeatWhile inSight _ _ _ _ ih => exact .repeatWhile _ ih text
  | layout => exact within_skipLayout
  | sign label hbland =>
      refine within_expect (fun h => h) ?_
      rintro left rfl
      exact path_of_isPlain (all_isPlain_of_isBlandWord hbland) left
  | comma => exact within_operator (List.all_eq_true.mp (by decide)) text
  | enclosed hpair _ ih =>
      rcases walks_of_isBracketPair hpair with ⟨hopening, hclosing⟩
      exact .bind (within_operator hopening text) fun _ => .bind (ih _) fun _ =>
        .bind (within_operator hclosing _) fun _ => .pure (.here _)
  | wholeWord label hbland =>
      refine within_expect (fun h => (Bool.and_eq_true _ _ ▸ h).1) ?_
      rintro left rfl
      exact path_of_isPlain (all_isPlain_of_isBlandWord hbland) left
  | named hbland => exact within_named fun v => all_isPlain_of_isBlandWord (hbland v)
  | word label hfirst => exact within_word label hfirst
  | quoted hquote => exact within_quoted hquote
  | numeral => exact within_numeral
  | decimalLiteral => exact within_decimalLiteral
  | behind hc _ _ ihp ihq => exact within_behind (isPlain_of_isBland hc) ihp (ihq text)
  | slash _ hclear _ ihp ihnext =>
      refine .bind (ihp text) fun hdone => .bind (within_slash (hclear hdone)) fun _ => ?_
      exact ihnext _ _
  | stop => exact within_operator (List.all_eq_true.mp (by decide)) text

end Reading

end Tptp
