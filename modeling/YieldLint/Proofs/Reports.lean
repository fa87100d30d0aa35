/-
What the rule reports, said without a walk.

A named node gives rise to a finding by its own shape, by the imports before it
in preorder and by the nodes above it, down from the node that the walk started
from (`Rule.expected?`). The rule finds what its named nodes give rise to, in
preorder and nothing else (`findings_eq_expected`): the state of a walk is at
every moment read off the nodes before and the nodes above (`passAt`).
-/
import YieldLint.Proofs.Visit
import YieldLint.Rule.Check

namespace YieldLint

/-! ## Findings without a walk -/

namespace Node

def isImport (n : Node) : Bool := n.named && n.kind == "import_statement"

theorem kind_of_isImport {n : Node} (h : n.isImport = true) : n.kind = "import_statement" := by
  simpa using (Bool.and_eq_true_iff.1 h).2

def opensYield (n : Node) : Bool := n.named && n.isYield

def opensGenerator (n : Node) : Bool := n.named && n.isGenerator

/-- A yield without a star, of an effect. -/
def YieldsEffect (n : Node) (aliases : Aliases) (source : Bytes) : Prop :=
  n.kind = "yield_expression" ∧ (∀ c ∈ n.children, c.kind ≠ "*") ∧
    ∃ e ∈ n.yieldArgument?, e.isEffectCall aliases source = true

/-- A call of an effect under a yield, where no named yield and some named generator
is among the nodes above. -/
def CallsEffect (n : Node) (above : List Node) (aliases : Aliases) (source : Bytes) : Prop :=
  n.kind = "call_expression" ∧ (∃ p ∈ n.effectiveParent?, p.kind = "yield_expression") ∧
    (aliases.resolve (n.calleeKey? source)).isSome = true ∧
    (∀ m ∈ above, ¬(m.named = true ∧ m.kind = "yield_expression")) ∧
    ∃ m ∈ above, m.named = true ∧ m.isGenerator = true

instance (n : Node) (aliases : Aliases) (source : Bytes) :
    Decidable (n.YieldsEffect aliases source) :=
  inferInstanceAs (Decidable (_ ∧ _))

instance (n : Node) (above : List Node) (aliases : Aliases) (source : Bytes) :
    Decidable (n.CallsEffect above aliases source) :=
  inferInstanceAs (Decidable (_ ∧ _))

end Node

/-- The alias table that the imports among some nodes fill. -/
def Aliases.ofImports (catalogue : Catalogue) (source : Bytes) (ns : List Node) : Aliases :=
  (ns.filter (·.isImport)).foldl (fun a n => (a.observeImport catalogue n source).1) .empty

namespace Rule

variable (rule : Rule) (source : Bytes)

/-- The aliases known at a node: those of the imports before it. -/
def aliasesAt (top n : Node) : Aliases :=
  .ofImports rule.catalogue source (top.preorder.filter fun m => decide (m.index < n.index))

/-- The finding that a node below `top` gives rise to. -/
def expected? (top n : Node) : Option Finding :=
  if n.YieldsEffect (rule.aliasesAt source top n) source then
    some { anchor := n, fix := {
      kind := .replace
      startByte := n.span.startByte
      endByte := n.span.endByte
      text := (n.starFix source).text } }
  else if n.CallsEffect (n.ancestorsWithin top) (rule.aliasesAt source top n) source then
    some { anchor := n, fix := {
      kind := .insertBefore
      startByte := n.span.startByte
      endByte := n.span.startByte
      text := "yield* " } }
  else none

/-- The findings that the named nodes below a node give rise to, in preorder. -/
def expected (top : Node) : List Finding :=
  (top.preorder.filter (·.named)).filterMap (rule.expected? source top)

end Rule

/-! ## The state of a walk -/

/-- The counters when some nodes are open. -/
def Nesting.opened (ns : List Node) : Nesting where
  generators := ns.countP (·.opensGenerator)
  yields := ns.countP (·.opensYield)

namespace Nesting

theorem opened_cons (n : Node) (ns : List Node) : opened (n :: ns) =
    { generators := (opened ns).generators + if n.opensGenerator then 1 else 0
      yields := (opened ns).yields + if n.opensYield then 1 else 0 } := by
  simp only [opened, List.countP_cons, Int.natCast_add]
  split <;> split <;> rfl

theorem inYield_opened (ns : List Node) :
    (opened ns).inYield = true ↔ ∃ m ∈ ns, m.named = true ∧ m.kind = "yield_expression" := by
  simp [inYield, opened, Int.natCast_pos, List.countP_pos_iff, Node.opensYield, Node.isYield]

theorem inGenerator_opened (ns : List Node) :
    (opened ns).inGenerator = true ↔ ∃ m ∈ ns, m.named = true ∧ m.isGenerator = true := by
  simp [inGenerator, opened, Int.natCast_pos, List.countP_pos_iff, Node.opensGenerator]

end Nesting

theorem Aliases.ofImports_append (catalogue : Catalogue) (source : Bytes) (ns : List Node)
    (n : Node) : ofImports catalogue source (ns ++ [n]) =
      if n.isImport then ((ofImports catalogue source ns).observeImport catalogue n source).1
      else ofImports catalogue source ns := by
  by_cases h : n.isImport <;> simp [ofImports, List.filter_append, h]

namespace Node

theorem isFunction_of_isGenerator {n : Node} (h : n.isGenerator = true) :
    functionKinds.contains n.kind = true := by
  simp only [isGenerator, Bool.or_eq_true, Bool.and_eq_true, beq_iff_eq] at h
  rcases h with (h | h) | ⟨h, -⟩ <;> rw [h] <;> decide

/-- Parentheses aside, a call is an effect call if its callee's name means one. -/
theorem resolveEffect_call {n : Node} (h : n.kind = "call_expression") (aliases : Aliases)
    (source : Bytes) : n.resolveEffect aliases source = aliases.resolve (n.calleeKey? source) := by
  have hu : n.unwrapParens = some n := by
    rw [unwrapParens, if_neg (by simp [isParenthesized, h])]
  simp [resolveEffect, hu, h, Shape.ofKind]

theorem missesStar_iff {n : Node} (h : n.kind = "yield_expression") (aliases : Aliases)
    (source : Bytes) : n.missesStar aliases source = true ↔ n.YieldsEffect aliases source := by
  simp [missesStar, YieldsEffect, h, hasStar, Option.any_eq_true]

theorem isBareCall_iff {n : Node} (h : n.kind = "call_expression") (above : List Node)
    (aliases : Aliases) (source : Bytes) :
    n.isBareCall aliases (.opened above) source = true ↔ n.CallsEffect above aliases source := by
  have hy : (Nesting.opened above).inYield = false ↔
      ∀ m ∈ above, ¬(m.named = true ∧ m.kind = "yield_expression") := by
    rw [← Bool.not_eq_true, Nesting.inYield_opened]
    simp
  simp only [isBareCall, CallsEffect, Bool.and_eq_true, Bool.not_eq_true', hy,
    Nesting.inGenerator_opened, resolveEffect_call h, h, true_and, and_assoc]
  simp [Option.any_eq_true, isYield]

end Node

namespace Rule

variable (rule : Rule) (source : Bytes) (top : Node)

/-- All that entering a node does. -/
theorem handle_enter (n : Node) (p : Pass) : (rule.hooks source).handle p (.enter n) =
    { aliases :=
        if n.isImport then (p.aliases.observeImport rule.catalogue n source).1 else p.aliases
      nesting :=
        { generators := p.nesting.generators + if n.opensGenerator then 1 else 0
          yields := p.nesting.yields + if n.opensYield then 1 else 0 }
      findings := p.findings ++
        if n.named ∧ n.kind = "yield_expression" ∧ n.missesStar p.aliases source then
          [⟨n, n.starFix source⟩]
        else if n.named ∧ n.kind = "call_expression" ∧ n.isBareCall p.aliases p.nesting source then
          [⟨n, n.yieldFix⟩]
        else [] } := by
  obtain ⟨aliases, nesting, findings⟩ := p
  simp only [Hooks.handle, Hooks.call, hooks, Node.isImport, Node.opensYield, Node.opensGenerator,
    Node.isYield]
  by_cases hn : n.named = true
  case neg => simp [hn]
  by_cases hi : n.kind = "import_statement"
  · simp [hn, hi, Pass.onImport, Node.isGenerator]
  by_cases hy : n.kind = "yield_expression"
  · by_cases hm : n.missesStar aliases source = true <;>
      simp [hn, hy, hm, Pass.onYield, Node.isGenerator, Nesting.enterYield]
  by_cases hc : n.kind = "call_expression"
  · by_cases hb : n.isBareCall aliases nesting source = true <;>
      simp [hn, hc, hb, Pass.onCall, Node.isGenerator]
  by_cases hf : Node.functionKinds.contains n.kind = true
  · by_cases hg : n.isGenerator = true <;>
      simp [hn, hi, hy, hc, List.contains_iff_mem.1 hf, hg, Pass.onFunction, Nesting.enterFunction]
  · have hg : n.isGenerator = false := by simpa using mt Node.isFunction_of_isGenerator hf
    have hf' : n.kind ∉ Node.functionKinds := by simpa using hf
    simp [hn, hi, hy, hc, hf', hg]

/-- All that leaving a node does. -/
theorem handle_exit (n : Node) (p : Pass) : (rule.hooks source).handle p (.exit n) =
    { p with nesting :=
        { generators := p.nesting.generators - if n.opensGenerator then 1 else 0
          yields := p.nesting.yields - if n.opensYield then 1 else 0 } } := by
  obtain ⟨aliases, nesting, findings⟩ := p
  simp only [Hooks.handle, Hooks.call, hooks, Node.opensYield, Node.opensGenerator, Node.isYield]
  by_cases hn : n.named = true
  case neg => simp [hn]
  by_cases hy : n.kind = "yield_expression"
  · simp [hn, hy, Pass.onYieldExit, Node.isGenerator, Nesting.exitYield]
  by_cases hf : Node.functionKinds.contains n.kind = true
  · by_cases hg : n.isGenerator = true <;>
      simp [hn, hy, List.contains_iff_mem.1 hf, hg, Pass.onFunctionExit, Nesting.exitFunction]
  · have hg : n.isGenerator = false := by simpa using mt Node.isFunction_of_isGenerator hf
    have hf' : n.kind ∉ Node.functionKinds := by simpa using hf
    simp [hn, hy, hf', hg]

/-- What a node gives rise to, in the rule's own words. -/
theorem expected?_eq (n : Node) : rule.expected? source top n =
    if n.kind = "yield_expression" ∧ n.missesStar (rule.aliasesAt source top n) source then
      some ⟨n, n.starFix source⟩
    else if n.kind = "call_expression" ∧ n.isBareCall (rule.aliasesAt source top n)
        (.opened (n.ancestorsWithin top)) source then
      some ⟨n, n.yieldFix⟩
    else none := by
  by_cases hy : n.kind = "yield_expression"
  · simp [expected?, hy, Node.missesStar_iff hy, Node.CallsEffect, Node.starFix]
  by_cases hc : n.kind = "call_expression"
  · simp [expected?, hc, Node.isBareCall_iff hc, Node.YieldsEffect, Node.yieldFix]
  · simp [expected?, hy, hc, Node.YieldsEffect, Node.CallsEffect]

/-- What a walk from `top` knows and has found, given the nodes before and above. -/
def passAt (before above : List Node) : Pass where
  aliases := .ofImports rule.catalogue source before
  nesting := .opened (above.filter fun m => decide (top.depth ≤ m.depth))
  findings := (before.filter (·.named)).filterMap (rule.expected? source top)

theorem passAt_start : rule.passAt source top [] top.ancestors = {} := by
  have h : top.ancestors.filter (fun m => decide (top.depth ≤ m.depth)) = [] :=
    top.ancestorsWithin_self
  simp [passAt, h, Nesting.opened, Aliases.ofImports]

/-- Each event of a walk from `top` keeps up `passAt`. -/
theorem keepsUp_passAt : KeepsUp top (rule.hooks source).handle
    fun before above p => p = rule.passAt source top before above where
  enter n before after p h hd hp := by
    have ha : rule.aliasesAt source top n = .ofImports rule.catalogue source before := by
      rw [aliasesAt, Node.filter_index_lt_preorder h]
    have hf : ([n].filter (·.named)).filterMap (rule.expected? source top) =
        if n.named = true then (rule.expected? source top n).toList else [] := by
      by_cases hn : n.named = true <;> cases he : rule.expected? source top n <;> simp [hn, he]
    rw [hp, handle_enter]
    simp only [passAt]
    rw [Node.filter_depth_ancestors hd, Nesting.opened_cons, Aliases.ofImports_append,
      List.filter_append, List.filterMap_append, hf]
    congr 2
    rw [expected?_eq, ha, Node.ancestorsWithin]
    by_cases hn : n.named = true
    · simp only [hn, true_and, if_true]
      split
      · rfl
      · split <;> rfl
    · simp [hn]
  exit n before after p _ hd hp := by
    rw [hp, handle_exit]
    simp only [passAt]
    rw [Node.filter_depth_ancestors hd, Nesting.opened_cons]
    simp only [Int.add_sub_cancel]
    rfl

/-! ## What is found -/

/-- The rule finds what the nodes give rise to. -/
theorem findings_eq_expected : rule.findings source top = rule.expected source top := by
  have hrun := (rule.keepsUp_passAt source top).foldl_visit top [] [] {} (by simp)
    (Nat.le_refl _) (rule.passAt_start source top).symm
  rw [findings, Node.walk, Node.events_eq_visit, hrun]
  rfl

theorem anchor_of_expected? {n : Node} {f : Finding} (h : rule.expected? source top n = some f) :
    f.anchor = n := by
  unfold expected? at h
  split at h
  · cases h; rfl
  · split at h
    · cases h; rfl
    · cases h

theorem mem_expected {f : Finding} : f ∈ rule.expected source top ↔
    f.anchor ∈ top.preorder ∧ f.anchor.named = true ∧
      rule.expected? source top f.anchor = some f := by
  simp only [expected, List.mem_filterMap, List.mem_filter]
  constructor
  · rintro ⟨n, ⟨hn, hnamed⟩, h⟩
    obtain rfl := rule.anchor_of_expected? source top h
    exact ⟨hn, hnamed, h⟩
  · rintro ⟨hn, hnamed, h⟩
    exact ⟨f.anchor, ⟨hn, hnamed⟩, h⟩

/-- The two shapes of a finding, each with its fix. -/
theorem fix_of_mem_findings {f : Finding} (h : f ∈ rule.findings source top) :
    f.anchor.kind = "yield_expression" ∧ f.fix = f.anchor.starFix source ∨
      f.anchor.kind = "call_expression" ∧ f.fix = f.anchor.yieldFix := by
  rw [findings_eq_expected] at h
  obtain ⟨-, -, h⟩ := (rule.mem_expected source top).1 h
  rw [expected?_eq] at h
  split at h
  · rename_i hyield
    exact .inl ⟨hyield.1, congrArg Finding.fix (Option.some.inj h.symm)⟩
  split at h
  · rename_i hcall
    exact .inr ⟨hcall.1, congrArg Finding.fix (Option.some.inj h.symm)⟩
  · cases h

/-- The nodes at which something is found, in their order. -/
theorem map_anchor_expected_sublist :
    ((rule.expected source top).map (·.anchor)).Sublist top.preorder := by
  have hrow : ∀ ns : List Node,
      ((ns.filterMap (rule.expected? source top)).map (·.anchor)).Sublist ns := by
    intro ns
    induction ns with
    | nil => exact .slnil
    | cons n ns ih =>
      rw [List.filterMap_cons]
      split
      · exact ih.cons n
      · rename_i f hf
        rw [List.map_cons, rule.anchor_of_expected? source top hf]
        exact ih.cons_cons n
  exact (hrow _).trans List.filter_sublist

/-- Findings stand in preorder, and no two of them at one node. -/
theorem pairwise_index_expected :
    (rule.expected source top).Pairwise fun f g => f.anchor.index < g.anchor.index := by
  have h := top.pairwise_index_preorder.sublist (rule.map_anchor_expected_sublist source top)
  rwa [List.pairwise_map] at h

end Rule

end YieldLint
