import Calculator.Proofs.Expression.Evaluation
import Calculator.Proofs.Expression.Fault

/-!
# The programmer grammar within the scientific one

A derivation in the programmer grammar is one in the scientific grammar, with the same tree. The
other way round only powers and the two words stand apart: on a text that has neither, the readers
of both grammars take the same steps, so they find the same tree or the same fault.
-/

namespace Calculator

theorem Operator.JoinsFactors.scientific {op : Operator} (h : op.JoinsFactors .programmer) :
    op.JoinsFactors .scientific := by
  rcases h with rfl | rfl | ⟨-, hg⟩
  · exact .inl rfl
  · exact .inr (.inl rfl)
  · cases hg

theorem Operator.ofFactorSign?_programmer {c : Char} (hc : c ≠ '^') :
    ofFactorSign? .programmer c = ofFactorSign? .scientific c := by
  ext op
  rw [ofFactorSign?_eq_some_iff, ofFactorSign?_eq_some_iff]
  constructor
  · rintro ⟨hop, rfl⟩
    exact ⟨hop.scientific, rfl⟩
  · rintro ⟨rfl | rfl | ⟨rfl, -⟩, rfl⟩
    · exact ⟨.inl rfl, rfl⟩
    · exact ⟨.inr (.inl rfl), rfl⟩
    · exact absurd rfl hc

namespace Expression

variable {operator? operator?' : Char → Option Operator} {operand operand' : Text → Reading}
  {last : Bool} {level : Level} {s t : Text} {e : Expression}

/-! ## Derivations -/

theorem Derives.scientific (h : Derives .programmer last level s e) :
    Derives .scientific last level s e := by
  induction h with
  | ofTerm _ ih => exact .ofTerm ih
  | addition n hop _ _ ihl ihr => exact .addition n hop ihl ihr
  | ofFactor _ ih => exact .ofFactor ih
  | product n hop _ _ ihl ihr => exact .product n hop.scientific ihl ihr
  | plus n _ ih => exact .plus n ih
  | minus n _ ih => exact .minus n ih
  | group n m _ ih => exact .group n m ih
  | unclosed n _ ih => exact .unclosed n ih
  | number n h => exact .number n h
  | undefined n hg => cases hg
  | infinity n hg => cases hg

theorem evaluate_scientific_of_programmer {x : Float} (h : evaluate .programmer s = .ok x) :
    evaluate .scientific s = .ok x := by
  obtain ⟨e, hparse, rfl⟩ := evaluate_eq_ok h
  obtain ⟨⟨u, n, rfl, hderives⟩, hnest⟩ := parse_eq_ok_iff.mp hparse
  exact evaluate_of_accepts ⟨u, n, rfl, hderives.scientific⟩ hnest

/-! ## Readings -/

/-- A text with nothing that only the scientific grammar has. -/
structure IsPlain (s : Text) : Prop where
  power : '^' ∉ s
  undefined : ¬"NaN".toList <:+: s
  infinity : ¬"inf".toList <:+: s

theorem IsPlain.of_suffix (hs : IsPlain s) (ht : t <:+ s) : IsPlain t where
  power h := hs.power (ht.subset h)
  undefined h := hs.undefined (h.trans ht.isInfix)
  infinity h := hs.infinity (h.trans ht.isInfix)

/-- Where no word stands, both grammars find a character that starts no factor. -/
theorem IsPlain.readWord_eq (hs : IsPlain s) : readWord .programmer s = readWord .scientific s := by
  have hprogrammer : readWord .programmer s = .error (.at s) := by simp [readWord]
  rw [hprogrammer]
  unfold readWord
  split
  · exact absurd (List.infix_append [] "NaN".toList _) hs.undefined
  · exact absurd (List.infix_append [] "inf".toList _) hs.infinity
  · rfl

/-- What goes on alike with the ends of a text goes on alike with what is left of it. -/
theorem Within.bind_congr {reading : Reading} {next next' : Expression × Text → Reading}
    (h : Within s reading) (hnext : ∀ e rest, rest <:+ s → next (e, rest) = next' (e, rest)) :
    reading >>= next = reading >>= next' := by
  cases h with
  | read hrest => exact hnext _ _ hrest
  | fault => rfl

/-- Two chains are the same on a text if their operators and operands are the same in it. -/
theorem chainFrom_eq_of_agree (hoperator : ∀ c ∈ s, operator? c = operator?' c)
    (hoperand : ∀ t, t <:+ s → operand t = operand' t) (hwithin : IsWithin operand')
    (limit : Nat) (left : Expression) :
    chainFrom operator? operand limit left s = chainFrom operator?' operand' limit left s := by
  induction limit generalizing left s with
  | zero => rfl
  | succ limit ih =>
    have hskip := skipSpaces_suffix s
    simp only [chainFrom]
    cases hs : skipSpaces s with
    | nil => rfl
    | cons c rest =>
      rw [hs] at hskip
      have hrest : rest <:+ s := (List.suffix_cons c rest).trans hskip
      dsimp only
      rw [hoperator c (hskip.subset List.mem_cons_self), hoperand rest hrest]
      cases operator?' c with
      | none => rfl
      | some op =>
        refine (hwithin rest).bind_congr fun right rest' hleft => ?_
        have hsuffix := hleft.trans hrest
        exact ih (fun c hc => hoperator c (hsuffix.subset hc))
          (fun t ht => hoperand t (ht.trans hsuffix)) _

theorem chain_eq_of_agree (hoperator : ∀ c ∈ s, operator? c = operator?' c)
    (hoperand : ∀ t, t <:+ s → operand t = operand' t) (hwithin : IsWithin operand') :
    chain operator? operand s = chain operator?' operand' s := by
  rw [chain_eq, chain_eq, hoperand s List.suffix_rfl]
  refine (hwithin s).bind_congr fun left rest hleft => ?_
  exact chainFrom_eq_of_agree (fun c hc => hoperator c (hleft.subset hc))
    (fun t ht => hoperand t (ht.trans hleft)) hwithin _ _

theorem IsPlain.readSum_eq (hs : IsPlain s) {factor factor' : Text → Reading}
    (hfactor : ∀ t, t <:+ s → factor t = factor' t) (hwithin : IsWithin factor') :
    readSum .programmer factor s = readSum .scientific factor' s := by
  refine chain_eq_of_agree (fun _ _ => rfl) (fun t ht => ?_) (chain_isWithin hwithin)
  refine chain_eq_of_agree (fun c hc => Operator.ofFactorSign?_programmer ?_)
    (fun u hu => hfactor u (hu.trans ht)) hwithin
  rintro rfl
  exact hs.power (ht.subset hc)

/-- By induction on the bound on signs and brackets. -/
theorem IsPlain.readFactor_eq (hs : IsPlain s) (depth : Nat) :
    readFactor .programmer depth s = readFactor .scientific depth s := by
  induction depth generalizing s with
  | zero => rfl
  | succ depth ih =>
    have hskip := skipSpaces_suffix s
    unfold readFactor
    cases hspaces : skipSpaces s with
    | nil => rfl
    | cons c rest =>
      rw [hspaces] at hskip
      have hplain := hs.of_suffix hskip
      have hrest := hplain.of_suffix (List.suffix_cons c rest)
      dsimp only
      rw [ih hrest, hplain.readWord_eq,
        hrest.readSum_eq (fun t ht => ih (hrest.of_suffix ht)) (readFactor_isWithin _ depth)]

theorem IsPlain.parse_eq (hs : IsPlain s) : parse .programmer s = parse .scientific s := by
  rw [parse, parse, hs.readSum_eq (fun t ht => (hs.of_suffix ht).readFactor_eq maxNesting)
    (readFactor_isWithin _ maxNesting)]

/-- **The programmer grammar restricts the scientific one and changes nothing else.** What it gives
a value has the same value in the scientific grammar. A text without powers and words has the same
value in both, or the same fault at the same place. -/
theorem evaluate_programmer_restricts (s : Text) :
    (∀ x, evaluate .programmer s = .ok x → evaluate .scientific s = .ok x) ∧
      ('^' ∉ s → ¬"NaN".toList <:+: s → ¬"inf".toList <:+: s →
        evaluate .programmer s = evaluate .scientific s) := by
  refine ⟨fun _ => evaluate_scientific_of_programmer, fun hpower hundefined hinfinity => ?_⟩
  rw [evaluate, evaluate, IsPlain.parse_eq ⟨hpower, hundefined, hinfinity⟩]

/-- `6*-(2` has the same value in both grammars, and `7-(2..5)` the same fault, at its number. -/
theorem evaluate_programmer_restricts_fault :
    (evaluate .programmer "6*-(2".toList = .ok (-12) ∧
      evaluate .scientific "6*-(2".toList = .ok (-12)) ∧
    ('^' ∉ "7-(2..5)".toList ∧ ¬"NaN".toList <:+: "7-(2..5)".toList ∧
      ¬"inf".toList <:+: "7-(2..5)".toList) ∧
    evaluate .programmer "7-(2..5)".toList = evaluate .scientific "7-(2..5)".toList ∧
    evaluate .scientific "7-(2..5)".toList = .error ⟨3, .numeral "2..5".toList⟩ := by
  have hvalue : evaluate .programmer "6*-(2".toList = .ok (-12) ∧
      evaluate .scientific "7-(2..5)".toList = .error ⟨3, .numeral "2..5".toList⟩ := by
    decide +kernel
  have hplain : '^' ∉ "7-(2..5)".toList ∧ ¬"NaN".toList <:+: "7-(2..5)".toList ∧
      ¬"inf".toList <:+: "7-(2..5)".toList := by
    refine ⟨by decide, fun h => ?_, fun h => ?_⟩
    · exact absurd (h.subset (show 'N' ∈ "NaN".toList by decide)) (by decide)
    · exact absurd (h.subset (show 'i' ∈ "inf".toList by decide)) (by decide)
  exact ⟨⟨hvalue.1, (evaluate_programmer_restricts _).1 _ hvalue.1⟩, hplain,
    (evaluate_programmer_restricts _).2 hplain.1 hplain.2.1 hplain.2.2, hvalue.2⟩

end Expression

end Calculator
