/-
Where a call can be reported: under an unnamed yield only.

A call is reported for the yield that it stands under, parentheses aside. If that
yield is named and inside the walk, the walk counts it; if it is above the walk,
only parentheses lie between, and no generator is open. So a call is never
reported in a tree whose yields are all named, which are the trees that a parser
gives.
-/
import YieldLint.Proofs.Reports

namespace YieldLint

namespace Node

theorem ancestors_eq_of_effectiveParent? {n p : Node} (h : n.effectiveParent? = some p) :
    p.isParenthesized = false ∧ ∃ parens : List Node,
      n.ancestors = parens ++ p :: p.ancestors ∧ ∀ m ∈ parens, m.isParenthesized = true := by
  obtain ⟨⟨t, i⟩, above⟩ := n
  simp only [effectiveParent?, ancestors] at h ⊢
  induction above with
  | nil => simp at h
  | cons a rest ih =>
    by_cases ha : (a.tree.label.kind == "parenthesized_expression") = true
    · rw [List.dropWhile_cons, if_pos ha] at h
      obtain ⟨hp, parens, heq, hparens⟩ := ih h
      refine ⟨hp, ⟨a, rest⟩ :: parens, by rw [ofChain, heq]; rfl, fun m hm => ?_⟩
      rcases List.mem_cons.1 hm with rfl | hm
      · exact ha
      · exact hparens m hm
    · rw [List.dropWhile_cons, if_neg ha] at h
      simp only [Option.some.injEq] at h
      subst h
      exact ⟨by simpa [isParenthesized, kind, label] using ha, [], rfl, by simp⟩

/-- A call of an effect in the sense of the rule stands under an unnamed yield. -/
theorem CallsEffect.unnamed_yield {n top : Node} {aliases : Aliases} {source : Bytes}
    (h : n.CallsEffect (n.ancestorsWithin top) aliases source) :
    ∃ y, n.effectiveParent? = some y ∧ y.kind = "yield_expression" ∧ y.named = false ∧
      y ∈ n.ancestorsWithin top := by
  obtain ⟨-, ⟨y, hy, hkind⟩, -, hyields, g, hg, -, hgen⟩ := h
  obtain ⟨-, parens, heq, hparens⟩ := ancestors_eq_of_effectiveParent? hy
  obtain ⟨hganc, hgd⟩ := List.mem_filter.1 hg
  have hgd : top.depth ≤ g.depth := by simpa using hgd
  -- Neither parentheses nor a yield are a generator, so the generator is above the yield.
  have hgy : g ∈ y.ancestors := by
    rw [heq, List.mem_append, List.mem_cons] at hganc
    rcases hganc with hp | rfl | hganc
    · have hp := hparens g hp
      simp only [isParenthesized, beq_iff_eq] at hp
      simp [isGenerator, hp] at hgen
    · simp [isGenerator, hkind] at hgen
    · exact hganc
  have hyd : y ∈ n.ancestorsWithin top := by
    have := depth_lt_of_mem_ancestors hgy
    exact List.mem_filter.2 ⟨by rw [heq]; simp, by simp; omega⟩
  refine ⟨y, hy, hkind, ?_, hyd⟩
  simpa [hkind] using hyields y hyd

end Node

namespace Rule

variable (rule : Rule) (source : Bytes) (top : Node)

theorem expected?_call {n : Node} {f : Finding} (hc : n.kind = "call_expression")
    (h : rule.expected? source top n = some f) :
    n.CallsEffect (n.ancestorsWithin top) (rule.aliasesAt source top n) source := by
  rw [expected?, if_neg (by simp [Node.YieldsEffect, hc])] at h
  split at h
  · assumption
  · cases h

theorem expected?_yield {n : Node} {f : Finding} (hy : n.kind = "yield_expression")
    (h : rule.expected? source top n = some f) : f = ⟨n, n.starFix source⟩ := by
  rw [expected?_eq] at h
  simp only [hy, true_and] at h
  split at h
  · cases h; rfl
  · simp at h

theorem kind_of_expected? {n : Node} {f : Finding} (h : rule.expected? source top n = some f) :
    n.kind = "yield_expression" ∨ n.kind = "call_expression" := by
  rw [expected?_eq] at h
  split at h
  · next hy => exact .inl hy.1
  · split at h
    · next hc => exact .inr hc.1
    · cases h

theorem expected?_of_named_yields
    (hnamed : ∀ n ∈ top.preorder, n.kind = "yield_expression" → n.named = true) {f : Finding}
    (h : f ∈ rule.expected source top) :
    f.anchor.kind = "yield_expression" ∧ f.fix = f.anchor.starFix source := by
  obtain ⟨hmem, -, h⟩ := (rule.mem_expected source top).1 h
  rcases rule.kind_of_expected? source top h with hy | hc
  · refine ⟨hy, ?_⟩
    conv => lhs; rw [rule.expected?_yield source top hy h]
  · obtain ⟨y, -, hkind, hun, hy⟩ := (rule.expected?_call source top hc h).unnamed_yield
    have := hnamed y (Node.mem_preorder_of_mem_ancestorsWithin hmem hy) hkind
    simp [hun] at this

/-- **No call is reported under a named yield.** At no moment of a walk does a call
count as bare under a named yield, so each call that is found stands under an
unnamed one. In a tree whose yields are named, the rule reports yields alone, each
at a node of its own and with its star as the fix, and no call under any of them. -/
theorem bare_calls_under_unnamed_yields (path : String) :
    (∀ done n todo, top.events = done ++ .enter n :: todo →
      n.named = true → n.kind = "call_expression" →
      n.isBareCall (done.foldl (rule.hooks source).handle {}).aliases
        (done.foldl (rule.hooks source).handle {}).nesting source = true →
      ∃ y, n.effectiveParent? = some y ∧ y.kind = "yield_expression" ∧ y.named = false) ∧
    (∀ f ∈ rule.findings source top, f.anchor.kind = "call_expression" →
      ∃ y, f.anchor.effectiveParent? = some y ∧ y.kind = "yield_expression" ∧ y.named = false) ∧
    ((∀ n ∈ top.preorder, n.kind = "yield_expression" → n.named = true) →
      (∀ f ∈ rule.findings source top,
        f.anchor.kind = "yield_expression" ∧ f.fix.kind = .replace) ∧
      (∀ v ∈ rule.check source path top, v.nodeType = "yield_expression" ∧
        v.fix.map (·.kind) = if rule.offersFixes then some .replace else none) ∧
      ((rule.findings source top).map (·.anchor.index)).Nodup ∧
      ∀ f ∈ rule.findings source top, ∀ g ∈ rule.findings source top,
        f.anchor.kind = "call_expression" → f.anchor.effectiveParent? ≠ some g.anchor) := by
  have hunder : ∀ (n : Node) (aliases : Aliases),
      n.CallsEffect (n.ancestorsWithin top) aliases source →
      ∃ y, n.effectiveParent? = some y ∧ y.kind = "yield_expression" ∧ y.named = false := by
    intro n aliases h
    obtain ⟨y, hy, hkind, hun, -⟩ := h.unnamed_yield
    exact ⟨y, hy, hkind, hun⟩
  rw [findings_eq_expected]
  refine ⟨?_, ?_, fun hnamed => ?_⟩
  · intro done n todo h _ hc hbare
    obtain ⟨before, after, -, hp⟩ := (rule.keepsUp_passAt source top).moment
      (rule.passAt_start source top).symm h
    rw [hp] at hbare
    exact hunder n _ ((Node.isBareCall_iff hc _ _ source).1 hbare)
  · intro f hf hc
    obtain ⟨-, -, h⟩ := (rule.mem_expected source top).1 hf
    exact hunder f.anchor _ (rule.expected?_call source top hc h)
  · have hyield := fun f hf => rule.expected?_of_named_yields source top hnamed (f := f) hf
    refine ⟨fun f hf => ?_, fun v hv => ?_, ?_, fun f hf g _ hc => ?_⟩
    · obtain ⟨hy, hfix⟩ := hyield f hf
      exact ⟨hy, by rw [hfix]; rfl⟩
    · rw [check, findings_eq_expected] at hv
      obtain ⟨f, hf, rfl⟩ := List.mem_map.1 hv
      obtain ⟨hy, hfix⟩ := hyield f hf
      refine ⟨hy, ?_⟩
      simp only [report]
      split <;> simp [hfix, Node.starFix]
    · have h := rule.pairwise_index_expected source top
      exact List.pairwise_map.2 (h.imp Nat.ne_of_lt)
    · simp [(hyield f hf).1] at hc

end Rule

/-! ## A saga with a yield in a yield -/

namespace NestedSaga

/-- A node of the tree, all on one line. -/
def piece (kind : String) (named : Bool) (field : Option String) (start stop : Nat)
    (children : List Tree) : Tree :=
  .node { kind, named, field, span := ⟨start, stop, ⟨0, start⟩, ⟨0, stop⟩⟩ } children

/-- An effect call with its arguments. -/
def effect (start stop : Nat) (arguments : List Tree) : Tree :=
  piece "call_expression" true none start stop
    [piece "identifier" true (some "function") start (start + 4) [],
      piece "arguments" true none (start + 4) stop arguments]

/-- A yield, with or without a star. -/
def yielded (named starred : Bool) (start stop : Nat) (argument : Tree) : Tree :=
  piece "yield_expression" named none start stop <|
    piece "yield" false none start (start + 5) [] ::
      (if starred then [piece "*" false none (start + 5) (start + 6) []] else []) ++ [argument]

/-- The saga, its outer and its inner yield with or without a star. -/
def source (outer inner : Bool) : Bytes :=
  Utf8.encode <| "import\x7bcall\x7dfrom'typed-redux-saga';function*s()\x7byield" ++
    (if outer then "*" else "") ++ " call(yield" ++ (if inner then "*" else "") ++ " call())\x7d"

/-- Its tree, the yields named as a parser names them, or not. -/
def tree (named outer inner : Bool) : Tree :=
  let o := outer.toNat
  let i := outer.toNat + inner.toNat
  piece "program" true none 0 (73 + i)
    [piece "import_statement" true none 0 35
      [piece "import_clause" true none 6 12
        [piece "named_imports" true none 6 12
          [piece "import_specifier" true none 7 11
            [piece "identifier" true (some "name") 7 11 []]]],
        piece "string" true (some "source") 16 34 []],
    piece "generator_function_declaration" true none 35 (73 + i)
      [yielded named outer 48 (72 + i)
        (effect (54 + o) (72 + i)
          [yielded named inner (59 + o) (71 + i) (effect (65 + i) (71 + i) [])])]]

end NestedSaga

open NestedSaga in
/-- With named yields, both yields of the saga are found; with unnamed ones, both
calls, each under its yield. -/
theorem bare_calls_of_nestedSaga :
    ((∀ n ∈ (Node.ofTree (tree true false false)).preorder,
        n.kind = "yield_expression" → n.named = true) ∧
      (({} : Rule).findings (source false false) (.ofTree (tree true false false))).length = 2 ∧
      ∀ f ∈ ({} : Rule).findings (source false false) (.ofTree (tree true false false)),
        f.anchor.kind = "yield_expression" ∧ f.fix.kind = .replace) ∧
    (({} : Rule).findings (source false false) (.ofTree (tree false false false))).length = 2 ∧
      ∀ f ∈ ({} : Rule).findings (source false false) (.ofTree (tree false false false)),
        f.anchor.kind = "call_expression" ∧
          ∃ y, f.anchor.effectiveParent? = some y ∧ y.kind = "yield_expression" ∧
            y.named = false := by
  have hnamed : ∀ n ∈ (Node.ofTree (tree true false false)).preorder,
      n.kind = "yield_expression" → n.named = true := by decide +kernel
  have hcalls : (({} : Rule).findings (source false false)
      (.ofTree (tree false false false))).map (·.anchor.kind) =
        ["call_expression", "call_expression"] := by decide +kernel
  refine ⟨⟨hnamed, by decide +kernel, ?_⟩, by simpa using congrArg List.length hcalls, ?_⟩
  · exact (((Rule.bare_calls_under_unnamed_yields {} (source false false)
      (.ofTree (tree true false false)) "").2.2 hnamed).1)
  · intro f hf
    have hc : f.anchor.kind = "call_expression" := by
      have := List.mem_map_of_mem (f := fun f : Finding => f.anchor.kind) hf
      rw [hcalls] at this
      simpa using this
    exact ⟨hc, (Rule.bare_calls_under_unnamed_yields {} (source false false)
      (.ofTree (tree false false false)) "").2.1 f hf hc⟩

end YieldLint
