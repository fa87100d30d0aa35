/-
The argument of a yield, seen from the yield and from the argument.

From a yield, `unwrapParens` goes down through the parentheses around its argument; from the
expression that they hold, `effectiveParent?` goes up through them again, and comes out at the
yield (`effectiveParent?_of_unwrapParens`). A yield without a star is reported for what is seen
on the way down, a call for what is seen on the way up. Where the argument is a call, in a
generator and under no open yield, both see the same (`isBareCall_iff_of_yieldArgument?`). They
differ where the argument is a conditional: a call in a branch of it makes it an effect call,
but has the conditional above it (`isBareCall_iff_of_path`).
-/
import YieldLint.Proofs.EffectCalls

namespace YieldLint

namespace Node

variable {n c e y : Node} {aliases : Aliases} {source : Bytes}

theorem effectiveParent?_of_mem_children (h : c ∈ n.children) :
    c.effectiveParent? = if n.isParenthesized then n.effectiveParent? else some n := by
  obtain ⟨p, -, rfl⟩ := List.mem_map.1 h
  rw [effectiveParent?, List.dropWhile_cons]
  by_cases hparens : (n.tree.label.kind == "parenthesized_expression") = true
  · rw [if_pos hparens, if_pos (by exact hparens)]
    rfl
  · rw [if_neg hparens, if_neg (by exact hparens)]

/-- Parentheses taken off on the way down are passed on the way up. -/
theorem effectiveParent?_of_unwrapParens (h : n.unwrapParens = some e) :
    e.effectiveParent? = n.effectiveParent? := by
  induction n using children_induction with
  | step n below =>
    cases hparens : n.isParenthesized with
    | false =>
      rw [unwrapParens_of_not hparens, Option.some.injEq] at h
      rw [h]
    | true =>
      rw [unwrapParens_of_parenthesized hparens] at h
      obtain ⟨c, hc, hinner⟩ := Option.bind_eq_some_iff.1 h
      have hmem : c ∈ n.children := List.mem_of_mem_filter (List.mem_of_head? hc)
      rw [below c hmem hinner, effectiveParent?_of_mem_children hmem, if_pos hparens]

theorem isParenthesized_of_unwrapParens (h : n.unwrapParens = some e) :
    e.isParenthesized = false := by
  fun_induction unwrapParens n with
  | case1 => cases h
  | case2 n _ c _ _ ih => exact ih h
  | case3 n hparens =>
    cases h
    exact Bool.eq_false_iff.2 hparens

theorem isEffectCall_of_unwrapParens (h : n.unwrapParens = some e) :
    n.isEffectCall aliases source = e.isEffectCall aliases source := by
  rw [isEffectCall_eq n, isEffectCall_eq e, h,
    unwrapParens_of_not (isParenthesized_of_unwrapParens h)]

theorem effectiveParent?_of_yieldArgument? (hy : y.kind = "yield_expression")
    (h : y.yieldArgument?.bind unwrapParens = some c) : c.effectiveParent? = some y := by
  obtain ⟨argument, hargument, hunwrap⟩ := Option.bind_eq_some_iff.1 h
  have hmem : argument ∈ y.children := List.mem_of_mem_filter (List.mem_of_getLast? hargument)
  have hparens : ¬y.isParenthesized = true := by simp [isParenthesized, hy]
  rw [effectiveParent?_of_unwrapParens hunwrap, effectiveParent?_of_mem_children hmem,
    if_neg hparens]

theorem any_isEffectCall_yieldArgument? (h : y.yieldArgument?.bind unwrapParens = some c) :
    y.yieldArgument?.any (·.isEffectCall aliases source) = c.isEffectCall aliases source := by
  obtain ⟨argument, hargument, hunwrap⟩ := Option.bind_eq_some_iff.1 h
  rw [hargument, Option.any_some, isEffectCall_of_unwrapParens hunwrap]

theorem isBareCall_of_effectiveParent? (hcall : c.kind = "call_expression")
    (hy : y.kind = "yield_expression") (h : c.effectiveParent? = some y) {generators : Int}
    (hgenerators : 0 < generators) :
    c.isBareCall aliases ⟨generators, 0⟩ source = c.isEffectCall aliases source := by
  simp [isBareCall, h, isYield, hy, resolveEffect_call hcall, isEffectCall_of_call hcall,
    Nesting.inYield, Nesting.inGenerator, hgenerators]

theorem unwrapParens_or_conditional_of_path (hpath : Relation.ReflTransGen LooksInto n e)
    (he : e.isParenthesized = false) : n.unwrapParens = some e ∨
      ∃ m, e.effectiveParent? = some m ∧ m.kind = "ternary_expression" := by
  -- From the end of the path up: the last conditional on it stays above what follows.
  induction hpath using Relation.ReflTransGen.head_induction_on with
  | refl => exact .inl (unwrapParens_of_not he)
  | @head n c hlook _ ih =>
    refine ih.elim (fun hunwrap => ?_) .inr
    rcases hlook.kind with hparens | hconditional
    · left
      rw [unwrapParens_of_parenthesized (by simp [isParenthesized, hparens]),
        (looksInto_iff_of_parens hparens).1 hlook]
      exact hunwrap
    · right
      have hn : ¬n.isParenthesized = true := by simp [isParenthesized, hconditional]
      refine ⟨n, ?_, hconditional⟩
      rw [effectiveParent?_of_unwrapParens hunwrap,
        effectiveParent?_of_mem_children hlook.mem_children, if_neg hn]

/-- Of the calls for which the argument of a yield is an effect call, the one that it holds in
its parentheses is bare, and none in a branch of a conditional is. -/
theorem isBareCall_iff_of_path (hy : y.kind = "yield_expression")
    (hargument : y.yieldArgument? = some n) (hpath : Relation.ReflTransGen LooksInto n e)
    (hcalls : e.CallsKnown aliases source) {generators : Int} (hgenerators : 0 < generators) :
    e.isBareCall aliases ⟨generators, 0⟩ source = true ↔ n.unwrapParens = some e := by
  constructor
  · intro hbare
    have he : e.isParenthesized = false := by simp [isParenthesized, hcalls.1]
    refine (unwrapParens_or_conditional_of_path hpath he).resolve_right ?_
    rintro ⟨m, hm, hconditional⟩
    simp [isBareCall, hm, isYield, hconditional] at hbare
  · intro hunwrap
    have hparent : e.effectiveParent? = some y :=
      effectiveParent?_of_yieldArgument? hy (by rw [hargument]; exact hunwrap)
    rw [isBareCall_of_effectiveParent? hcalls.1 hy hparent hgenerators, isEffectCall_iff]
    exact .inl hcalls

/-- **Both shapes see the same effect calls.** What the argument of a yield holds in its
parentheses has the yield as its effective parent. If that is a call then in any number of
generators, with no yield open, it is bare just when the argument is an effect call; so the
yield misses its star just when it has none and the call is bare. -/
theorem isBareCall_iff_of_yieldArgument? (y c : Node) (aliases : Aliases) (source : Bytes)
    (hy : y.kind = "yield_expression") (h : y.yieldArgument?.bind unwrapParens = some c) :
    c.effectiveParent? = some y ∧
      (c.kind = "call_expression" → ∀ generators : Int, 0 < generators →
        (c.isBareCall aliases ⟨generators, 0⟩ source = true ↔
          y.yieldArgument?.any (·.isEffectCall aliases source) = true) ∧
        (y.missesStar aliases source = true ↔
          y.hasStar = false ∧ c.isBareCall aliases ⟨generators, 0⟩ source = true)) := by
  have hparent := effectiveParent?_of_yieldArgument? hy h
  refine ⟨hparent, fun hcall generators hgenerators => ?_⟩
  rw [missesStar, any_isEffectCall_yieldArgument? h,
    isBareCall_of_effectiveParent? hcall hy hparent hgenerators]
  exact ⟨Iff.rfl, by simp⟩

end Node

open NestedSaga in
/-- In `yield (call())`, with comments about the call, the call is bare in a generator and the
yield misses its star. -/
theorem isBareCall_of_yield_parens :
    let source := Utf8.encode "yield (call())"
    let aliases : Aliases := Table.empty.put "call" (some "call")
    let comment := piece "comment" true none 7 7 []
    let y := Node.ofTree <| yielded true false 0 14 <|
      piece "parenthesized_expression" true none 6 14
        [piece "(" false none 6 7 [], comment, effect 7 13 [], comment,
          piece ")" false none 13 14 []]
    ∃ c, y.yieldArgument?.bind Node.unwrapParens = some c ∧ c.kind = "call_expression" ∧
      c.effectiveParent? = some y ∧ c.isBareCall aliases ⟨1, 0⟩ source = true ∧
      y.missesStar aliases source = true := by
  intro source aliases comment y
  have hsome : (y.yieldArgument?.bind Node.unwrapParens).isSome = true := by decide +kernel
  obtain ⟨c, hc⟩ := Option.isSome_iff_exists.1 hsome
  have hcall : c.kind = "call_expression" := by
    have hkinds : (y.yieldArgument?.bind Node.unwrapParens).all (·.kind == "call_expression") =
        true := by decide +kernel
    rw [hc] at hkinds
    exact beq_iff_eq.1 hkinds
  obtain ⟨hparent, hshapes⟩ := Node.isBareCall_iff_of_yieldArgument? y c aliases source rfl hc
  obtain ⟨hbare, hmisses⟩ := hshapes hcall 1 (by decide)
  have heffect : y.yieldArgument?.any (·.isEffectCall aliases source) = true := by
    decide +kernel
  have hc' := hbare.2 heffect
  exact ⟨c, hc, hcall, hparent, hc', hmisses.2 ⟨by decide +kernel, hc'⟩⟩

end YieldLint
