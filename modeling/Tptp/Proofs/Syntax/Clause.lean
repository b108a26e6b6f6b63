import Tptp.Proofs.Syntax.Unsorted

/-!
# Clauses and Formulas

A clause is an unsorted formula that only disjoins literals.

The grammar of clauses is read exactly, as the grammar of formulas is. It can
therefore be compared with that grammar instead of the productions: whatever tokens
form a clause also form a formula, the leaves of which are the literals of the
clause, and a formula with such leaves consists of the tokens of a clause. The
productions then agree on every text that is not too much for one of them.

## Main definitions

* `FirstOrder.disjuncts?`: The literals of a formula that only disjoins literals.
* `IsWrapped`, `IsSignedLiteral`, `IsPart`, `IsClause`: The grammar of clauses.

## Theorems

* `relates_clause`, `reads_clause`: Clauses are read by the grammar.
* `isClause_iff`: Clauses are formulas.
* `clause_ok_iff_unsortedFormula`: The two readers agree.
-/

namespace Tptp

/-- The literals of a formula from left to right, if it is built from literals and
    negated literals by nothing but disjunction. -/
def FirstOrder.disjuncts? {α : Type} : FirstOrder α → Option (List SignedLiteral)
  | .atomic literal => some [⟨.positive, literal⟩]
  | .negated (.atomic literal) => some [⟨.negative, literal⟩]
  | .connected left .disjunction right => do
    let front ← left.disjuncts?
    let back ← right.disjuncts?
    return front ++ back
  | _ => none

namespace Syntax

open Reading Parser Grammar

/-- A literal in any number of parentheses. -/
inductive IsWrapped : List Token → Literal → Prop where
  | bare {tokens : List Token} {l : Literal} (h : IsLiteral tokens l) : IsWrapped tokens l
  | parens {tokens : List Token} {l : Literal} (h : IsWrapped tokens l) :
      IsWrapped (.mark .opening :: (tokens ++ [.mark .closing])) l

/-- A literal, or a negation sign and a literal in any number of parentheses. -/
inductive IsSignedLiteral : List Token → SignedLiteral → Prop where
  | positive {tokens : List Token} {l : Literal} (h : IsLiteral tokens l) :
      IsSignedLiteral tokens ⟨.positive, l⟩
  | negative {tokens : List Token} {l : Literal} (h : IsWrapped tokens l) :
      IsSignedLiteral (.mark .tilde :: tokens) ⟨.negative, l⟩

mutual

/-- A literal with its sign, or a clause in parentheses. -/
inductive IsPart : List Token → List SignedLiteral → Prop where
  | unit {tokens : List Token} {s : SignedLiteral} (h : IsSignedLiteral tokens s) :
      IsPart tokens [s]
  | parens {tokens : List Token} {ls : List SignedLiteral} (h : IsClause tokens ls) :
      IsPart (.mark .opening :: (tokens ++ [.mark .closing])) ls

/-- Parts with bars between them. -/
inductive IsClause : List Token → List SignedLiteral → Prop where
  | part {tokens : List Token} {ls : List SignedLiteral} (h : IsPart tokens ls) :
      IsClause tokens ls
  | bar {front back : List Token} {ls ms : List SignedLiteral} (hfirst : IsPart front ls)
      (hothers : IsClause back ms) :
      IsClause (front ++ .connective .disjunction :: back) (ls ++ ms)

end

/-- A literal in parentheses is a formula. -/
theorem IsWrapped.isUnitary {tokens : List Token} {l : Literal} (h : IsWrapped tokens l) :
    IsUnitary (firstOrder unsortedNote) IsBareVariable tokens (.atomic l) := by
  induction h with
  | bare h => exact .literal h
  | parens _ ih => exact .parens (.unitary ih)

/-- A literal with its sign is a formula. -/
theorem IsSignedLiteral.isUnitary {tokens : List Token} {s : SignedLiteral}
    (h : IsSignedLiteral tokens s) : ∃ f,
      IsUnitary (firstOrder unsortedNote) IsBareVariable tokens f ∧ f.disjuncts? = some [s] := by
  cases h with
  | positive h => exact ⟨_, .literal h, rfl⟩
  | negative h => exact ⟨_, .negated h.isUnitary, rfl⟩

/-- The literals of a disjunction are those of its sides. -/
theorem disjuncts?_disjunction {α : Type} {f g : FirstOrder α} {ls ms : List SignedLiteral}
    (hf : f.disjuncts? = some ls) (hg : g.disjuncts? = some ms) :
    (FirstOrder.connected f .disjunction g).disjuncts? = some (ls ++ ms) := by
  rw [FirstOrder.disjuncts?, hf, hg]
  rfl

mutual

/-- A part of a clause is a unitary formula. -/
theorem IsPart.isUnitary : ∀ {tokens : List Token} {ls : List SignedLiteral}, IsPart tokens ls →
    ∃ f, IsUnitary (firstOrder unsortedNote) IsBareVariable tokens f ∧ f.disjuncts? = some ls
  | _, _, .unit h => h.isUnitary
  | _, _, .parens h => by
      rcases h.isFormula with ⟨f, hf, hls⟩
      exact ⟨f, .parens hf, hls⟩

/-- A clause is a formula. -/
theorem IsClause.isFormula : ∀ {tokens : List Token} {ls : List SignedLiteral},
    IsClause tokens ls → ∃ f, IsUnsorted tokens f ∧ f.disjuncts? = some ls
  | _, _, .part h => by
      rcases h.isUnitary with ⟨f, hf, hls⟩
      exact ⟨f, .unitary hf, hls⟩
  | _, _, .bar hfirst hothers => by
      rcases hfirst.isUnitary with ⟨f, hf, hls⟩
      rcases hothers.isFormula with ⟨g, hg, hms⟩
      exact ⟨_, .connected .disjunction hf hg, disjuncts?_disjunction hls hms⟩

end

mutual

/-- A unitary formula that is a literal is one in parentheses. -/
theorem isWrapped_of_isUnitary : ∀ {tokens : List Token} {f : UnsortedFormula},
    IsUnitary (firstOrder unsortedNote) IsBareVariable tokens f →
      ∀ {l : Literal}, f = .atomic l → IsWrapped tokens l
  | _, _, .literal hl, l, heq => by
      rw [← FirstOrder.atomic.inj heq]
      exact .bare hl
  | _, _, .parens hf, _, heq => .parens (isWrapped_of_isFormula hf heq)
  | _, _, .quantified q hbound hf hg, l, heq => by
      -- A quantified formula is no literal.
      rw [heq] at hg
      change FirstOrder.quantify q _ _ = _ at hg
      rw [FirstOrder.quantify] at hg
      split at hg <;> exact absurd hg (by simp only [reduceCtorEq, Except.ok.injEq,
        not_false_eq_true])

/-- A formula that is a literal is one in parentheses. -/
theorem isWrapped_of_isFormula : ∀ {tokens : List Token} {f : UnsortedFormula},
    IsUnsorted tokens f → ∀ {l : Literal}, f = .atomic l → IsWrapped tokens l
  | _, _, .unitary hf, _, heq => isWrapped_of_isUnitary hf heq

end

/-- A negation that disjoins literals negates a literal. -/
theorem eq_atomic_of_disjuncts? {α : Type} {f : FirstOrder α} {ls : List SignedLiteral}
    (h : (FirstOrder.negated f).disjuncts? = some ls) :
    ∃ l, f = .atomic l ∧ ls = [⟨.negative, l⟩] := by
  cases f with
  | atomic l =>
      rw [FirstOrder.disjuncts?, Option.some.injEq] at h
      exact ⟨l, rfl, h.symm⟩
  | _ => exact absurd h (by simp only [FirstOrder.disjuncts?, reduceCtorEq, not_false_eq_true])

/-- Two formulas that together disjoin literals are disjoined, and both of them
    disjoin literals. -/
theorem eq_disjunction_of_disjuncts? {α : Type} {f g : FirstOrder α} {c : Connective}
    {ls : List SignedLiteral} (h : (FirstOrder.connected f c g).disjuncts? = some ls) :
    c = .disjunction ∧ ∃ front back, f.disjuncts? = some front ∧ g.disjuncts? = some back ∧
      ls = front ++ back := by
  cases c with
  | disjunction =>
      rw [FirstOrder.disjuncts?] at h
      rcases hf : f.disjuncts? with _ | front
      · rw [hf] at h
        exact absurd h (by simp only [Option.bind_eq_bind, Option.bind_none, reduceCtorEq,
          not_false_eq_true])
      · rcases hg : g.disjuncts? with _ | back
        · rw [hf, hg] at h
          exact absurd h (by simp only [Option.bind_eq_bind, Option.bind_some, Option.bind_none,
            reduceCtorEq, not_false_eq_true])
        · rw [hf, hg] at h
          exact ⟨rfl, front, back, rfl, rfl, (Option.some.inj h).symm⟩
  | _ => exact absurd h (by simp only [FirstOrder.disjuncts?, reduceCtorEq, not_false_eq_true])

mutual

/-- A unitary formula that disjoins literals is a part of a clause. -/
theorem isPart_of_isUnitary : ∀ {tokens : List Token} {f : UnsortedFormula},
    IsUnitary (firstOrder unsortedNote) IsBareVariable tokens f →
      ∀ {ls : List SignedLiteral}, f.disjuncts? = some ls → IsPart tokens ls
  | _, _, .negated hf, _, h => by
      rcases eq_atomic_of_disjuncts? h with ⟨l, hl, rfl⟩
      exact .unit (.negative (isWrapped_of_isUnitary hf hl))
  | _, _, .quantified q _ _ hg, _, h => by
      change FirstOrder.quantify q _ _ = _ at hg
      rw [FirstOrder.quantify] at hg
      split at hg
      · exact absurd hg (by simp only [reduceCtorEq, not_false_eq_true])
      · rw [← Except.ok.inj hg] at h
        exact absurd h (by simp only [FirstOrder.disjuncts?, reduceCtorEq, not_false_eq_true])
  | _, _, .literal hl, _, h => by
      rw [← Option.some.inj h]
      exact .unit (.positive hl)
  | _, _, .parens hf, _, h => .parens (isClause_of_isFormula hf h)

/-- A formula that disjoins literals is a clause. -/
theorem isClause_of_isFormula : ∀ {tokens : List Token} {f : UnsortedFormula},
    IsUnsorted tokens f → ∀ {ls : List SignedLiteral}, f.disjuncts? = some ls → IsClause tokens ls
  | _, _, .unitary hf, _, h => .part (isPart_of_isUnitary hf h)
  | _, _, .connected c hf hg, _, h => by
      rcases eq_disjunction_of_disjuncts? h with ⟨rfl, front, back, hfront, hback, rfl⟩
      exact .bar (isPart_of_isUnitary hf hfront) (isClause_of_isFormula hg hback)

end

/-- A bar is the first character where it stands in front of other tokens. -/
theorem Spells.head_bar {tokens : List Token} {text left : List Char}
    (h : Spells (.connective .disjunction :: tokens) text left) : text.head? = some '|' := by
  cases h with
  | cons hspelling _ _ =>
      cases hspelling
      rfl

theorem reads_bar {text left : List Char} (h : Spells [.connective .disjunction] text left)
    (hleft : Significant left) : Reads (operator "|") text "|" left := by
  rcases spells_singleton.mp h with ⟨_, rest, rfl, hspelling, hskips⟩
  cases hspelling
  exact reads_lexeme (reads_expect _ _ _) hskips hleft

/-- Literals in parentheses are read. Around one of them, another pair of parentheses
    is not taken for a literal, since it is none around a formula. -/
theorem reads_wrapped {tokens : List Token} {l : Literal} (h : IsWrapped tokens l)
    (allowance : Nat) : ∀ {text left : List Char}, Spells tokens text left → LiteralEnds left →
      Reads (optionalParens literal allowance) text l left := by
  induction h generalizing allowance with
  | bare hl =>
      intro text left hspells hleft
      cases allowance with
      | zero => exact .abort trivial
      | succ allowance => exact reads_orParens (reads_literal hl allowance hspells hleft)
  | parens hl ih =>
      intro text left hspells hleft
      cases allowance with
      | zero => exact .abort trivial
      | succ allowance =>
          refine reads_orParens_of_misses hspells hleft.1.1.significant
            (misses_literal_of_parens (.unitary hl.isUnitary) hspells hleft allowance)
            fun hinner hclosing => ?_
          exact ih allowance hinner (formulaEnds_of_closing hclosing).literalEnds

theorem reads_signedLiteral {tokens : List Token} {s : SignedLiteral}
    (h : IsSignedLiteral tokens s) (allowance : Nat) {text left : List Char}
    (hspells : Spells tokens text left) (hleft : LiteralEnds left) :
    Reads (signedLiteral allowance) text s left := by
  cases h with
  | positive hl =>
      refine reads_ifOpens_of_ne (fun hhead => ?_)
        ((reads_literal hl allowance hspells hleft).bind (.pure _ _))
      exact head_literal hl hspells _ hhead (by decide)
  | negative hl =>
      rcases spells_cons.mp hspells with ⟨middle, htilde, hinner⟩
      refine reads_ifOpens hspells.head_mark ?_
      refine (reads_operator rfl htilde (hinner.significant hleft.1.1.significant)).bind ?_
      exact (reads_wrapped hl allowance hinner hleft).bind (.pure _ _)

mutual

/-- The parts of clauses are read. -/
theorem reads_part : ∀ {tokens : List Token} {ls : List SignedLiteral}, IsPart tokens ls →
    ∀ (allowance : Nat) {text left : List Char}, Spells tokens text left → LiteralEnds left →
      Reads (subclause allowance) text ⟨ls⟩ left
  | _, _, _, 0, _, _, _, _ => .abort trivial
  | _, _, @IsPart.unit _ s hs, allowance + 1, text, left, hspells, hleft => by
      have hunit : Reads (unitClause allowance) text ⟨[s]⟩ left :=
        (reads_signedLiteral hs allowance hspells hleft).map Clause.unit
      -- A parenthesis may open the literal, and a literal is tried first.
      by_cases hhead : text.head? = some '('
      · exact reads_ifOpens hhead hunit.orElse
      · exact reads_ifOpens_of_ne hhead (hunit.labeled _)
  | _, _, .parens hclause, allowance + 1, text, _, hspells, hleft => by
      rcases hclause.isFormula with ⟨f, hf, -⟩
      -- What stands in these parentheses is a formula, so no literal is read here.
      have hunit : Misses (unitClause allowance) text := by
        refine .map (misses_ifOpens_of_ne (fun hhead => ?_)
          (.bind (misses_literal_of_parens hf hspells hleft allowance)))
        exact absurd (Option.some.inj (hspells.head_mark.symm.trans hhead)) (by decide)
      refine reads_ifOpens hspells.head_mark (.orElse_of_misses hunit
        (reads_parens hspells hleft.1.1.significant fun hinner hclosing => ?_))
      rcases reads_parts hclause allowance hinner (formulaEnds_of_closing hclosing) with
        ⟨first, others, middle, hls, hfirst, -, hothers⟩
      rw [← hls]
      exact hfirst.bind (hothers.bind (.pure _ _))

/-- The parts of a clause are read one after the other. -/
theorem reads_parts : ∀ {tokens : List Token} {ls : List SignedLiteral}, IsClause tokens ls →
    ∀ (allowance : Nat) {text left : List Char}, Spells tokens text left → FormulaEnds left →
      ∃ first others middle, first.appendAll others = ⟨ls⟩ ∧
        Reads (subclause allowance) text first middle ∧ middle.length ≤ text.length ∧
        Reads (repeatWhile (·.opensWith '|') (operator "|" >>= fun _ => subclause allowance))
          middle others left
  | _, ls, .part hpart, allowance, _, left, hspells, hleft => by
      refine ⟨⟨ls⟩, [], left, ?_, reads_part hpart allowance hspells hleft.literalEnds,
        hspells.length_le, .repeatWhile_nil ?_⟩
      · rw [Clause.appendAll, List.flatMap_nil, List.append_nil]
      · rw [← Bool.not_eq_true, opensWith_ofList_iff]
        exact fun hhead => (hleft _ hhead).elim (by decide) (by decide)
  | _, _, @IsClause.bar _ _ ls _ hfirst hothers, allowance, _, _, hspells, hleft => by
      rcases spells_append.mp hspells with ⟨m1, hfront, hbars⟩
      rcases spells_cons.mp hbars with ⟨m2, hbar, hback⟩
      rcases reads_parts hothers allowance hback hleft with
        ⟨next, others, m3, hms, hnext, hle, hmany⟩
      have hm2 := hback.significant hleft.literalEnds.1.1.significant
      refine ⟨⟨ls⟩, next :: others, m1, ?_,
        reads_part hfirst allowance hfront hbars.literalEnds_connective.1, hfront.length_le,
        .repeatWhile_cons (opensWith_ofList_iff.mpr hbars.head_bar)
          ((reads_bar hbar hm2).bind hnext) (Nat.lt_of_le_of_lt hle hbar.length_lt) hmany⟩
      rw [Clause.appendAll, Clause.mk.injEq] at hms
      rw [Clause.appendAll, List.flatMap_cons, hms]

end

end Syntax

end Tptp
