/-
Trees that look alike to the rule.

A tree may be changed in ways that the rule does not see: comments and tokens are put in,
operands are put in parentheses, and a yield that gets a star differs by that star alone. A
`Likeness` is what all of these have in common, said of the nodes of the two trees. The rule's
questions then have answers that are alike: children by field (`Likeness.childByField?`),
expressions inside parentheses (`Likeness.unwrapParens`), the parent around them
(`Likeness.any_effectiveParent?`); and the same answers where they are texts, effects or truth
values (`Likeness.calleeKey?`, `Likeness.isEffectCall`, `Likeness.observeImport`). The one
difference is whether a yield misses its star (`Likeness.missesStar`).
-/
import YieldLint.Proofs.Interspersed
import YieldLint.Proofs.Reports

namespace YieldLint

namespace Node

/-! ## Places where parentheses are looked through -/

/-- An expression that the rule looks for inside parentheses too: what a yield yields, a
branch of a conditional, the callee of a call, the object of a member. -/
structure IsOperand (n : Node) : Prop where
  significant : n.isSignificant = true
  unstarred : n.kind ≠ "*"
  place : ∃ p, n.parent? = some p ∧
    (p.kind = "yield_expression" ∧ p.yieldArgument? = some n ∨
      p.kind = "ternary_expression" ∧ (p.consequence? = some n ∨ p.alternative? = some n) ∨
      p.kind = "call_expression" ∧ p.childByField? "function" = some n ∨
      p.kind = "member_expression" ∧ p.childByField? "object" = some n)

/-- The kinds of the nodes that hold operands. -/
def operandHolders : List String :=
  ["yield_expression", "ternary_expression", "call_expression", "member_expression"]

theorem IsOperand.parent {c n : Node} (h : c.IsOperand) (hc : c ∈ n.children) :
    n.kind ∈ operandHolders ∧ (n.kind = "member_expression" → c.field = some "object") := by
  obtain ⟨p, hp, hplace⟩ := h.place
  rw [parent?_of_mem_children hc, Option.some.injEq] at hp
  subst hp
  rcases hplace with ⟨hkind, -⟩ | ⟨hkind, -⟩ | ⟨hkind, -⟩ | ⟨hkind, hobject⟩
  · exact ⟨by rw [hkind]; decide, by rw [hkind]; exact nofun⟩
  · exact ⟨by rw [hkind]; decide, by rw [hkind]; exact nofun⟩
  · exact ⟨by rw [hkind]; decide, by rw [hkind]; exact nofun⟩
  · exact ⟨by rw [hkind]; decide, fun _ => by simpa using List.find?_some hobject⟩

/-- Nothing is below the node, and it is no part of an expression. -/
structure IsFiller (n : Node) : Prop where
  childless : n.children = []
  insignificant : n.isSignificant = false

theorem IsFiller.of_plain {n : Node} (hchildless : n.tree.children = [])
    (hplain : n.named = true → n.kind = "comment") : n.IsFiller where
  childless := children_of_childless hchildless
  insignificant := by
    cases hnamed : n.named with
    | false => rw [isSignificant, hnamed, Bool.false_and]
    | true => rw [isSignificant, hplain hnamed, bne_self_eq_false, Bool.and_false]

theorem IsFiller.kind_of_named {n : Node} (h : n.IsFiller) (hnamed : n.named = true) :
    n.kind = "comment" := by
  simpa [isSignificant, hnamed] using h.insignificant

/-! ## The parent around the parentheses -/

/-- The kinds of the nodes above, the parent's first. -/
def kindsAbove (n : Node) : List String := n.above.map (·.tree.label.kind)

theorem kindsAbove_of_mem_children {c n : Node} (h : c ∈ n.children) :
    c.kindsAbove = n.kind :: n.kindsAbove := by
  obtain ⟨p, _, rfl⟩ := List.mem_map.1 h
  rfl

theorem map_kind_effectiveParent? (n : Node) :
    n.effectiveParent?.map (·.kind) = n.kindsAbove.find? (· != "parenthesized_expression") := by
  obtain ⟨⟨t, i⟩, above⟩ := n
  simp only [effectiveParent?, kindsAbove]
  induction above with
  | nil => rfl
  | cons p rest ih =>
    rw [List.dropWhile_cons, List.map_cons, List.find?_cons]
    cases hp : p.tree.label.kind == "parenthesized_expression" with
    | true =>
      rw [bne, hp]
      exact ih
    | false =>
      rw [bne, hp]
      rfl

/-! ## Expressions in parentheses -/

theorem unwrapParens_of_not {n : Node} (h : n.isParenthesized = false) :
    n.unwrapParens = some n := by
  rw [unwrapParens, if_neg (by rw [h]; exact Bool.false_ne_true)]

theorem unwrapParens_of_parenthesized {n : Node} (h : n.isParenthesized = true) :
    n.unwrapParens = n.significantChildren.head?.bind unwrapParens := by
  rw [unwrapParens, if_pos h]
  split
  · rename_i hnone
    rw [hnone]
    rfl
  · rename_i c rest hsome
    rw [hsome]
    rfl

theorem isEffectCall_eq (n : Node) (aliases : Aliases) (source : Bytes) :
    n.isEffectCall aliases source = n.unwrapParens.any fun e =>
      match Shape.ofKind e.kind with
      | .call => (aliases.resolve (e.calleeKey? source)).isSome
      | .conditional => e.consequence?.any (·.isEffectCall aliases source) ||
          e.alternative?.any (·.isEffectCall aliases source)
      | .other => false := by
  rw [isEffectCall]
  split
  · rename_i hnone
    rw [hnone]
    rfl
  · rename_i e hsome
    rw [hsome, Option.any_some]
    cases Shape.ofKind e.kind with
    | call => rfl
    | other => rfl
    | conditional =>
      cases e.consequence? with
      | none => cases e.alternative? <;> rfl
      | some c => cases e.alternative? <;> rfl

namespace Shape

theorem kind_of_call {kind : String} (h : ofKind kind = .call) : kind = "call_expression" := by
  by_contra hne
  rw [ofKind, if_neg hne] at h
  split at h <;> cases h

theorem kind_of_conditional {kind : String} (h : ofKind kind = .conditional) :
    kind = "ternary_expression" := by
  rw [ofKind] at h
  split at h
  · cases h
  · by_contra hne
    rw [if_neg hne] at h
    cases h

end Shape

end Node

/-! ## Likenesses -/

/-- A pair of parentheses around what holds an operand, with fillers beside it. -/
structure Parenthesizes (held : Node → Node → Prop) (new : Node → Prop) (c c' : Node) : Prop where
  operand : c.IsOperand
  named : c'.named = true
  kind : c'.kind = "parenthesized_expression"
  isNew : new c'
  inside : ∃ before e after, c'.children = before ++ e :: after ∧ held c e ∧
    ∀ b ∈ before ++ after, new b ∧ b.IsFiller

/-- A filler put in below a node. Other nodes than yields are asked for fields, and a star
is put in only where it is said to be. -/
structure PutIn (new : Node → Prop) (starred : Node → Bool) (n b : Node) : Prop where
  isNew : new b
  filler : b.IsFiller
  unheld : n.isYield = false → b.field = none
  plain : starred n = false → b.kind ≠ "*"

/-- Two trees of whose nodes the rule is told alike. A node is the `same` as what has become
of it, and `held` by what has taken its place below its parent, which is that node or
parentheses around what holds it; other nodes of the second tree are `new`, and some yields
have been `starred`. -/
structure Likeness (same held : Node → Node → Prop) (new : Node → Prop)
    (starred : Node → Bool) : Prop where
  kind {n n' : Node} : same n n' → n'.kind = n.kind
  named {n n' : Node} : same n n' → n'.named = n.named
  span {n n' : Node} : same n n' → n'.span = n.span
  /-- Nothing but parentheses is put in above. -/
  above {n n' : Node} : same n n' →
    Interspersed Eq (· = "parenthesized_expression") n.kindsAbove n'.kindsAbove
  children {n n' : Node} : same n n' →
    Interspersed (fun c c' => held c c' ∧ c'.field = c.field) (PutIn new starred n)
      n.children n'.children
  place {c c' : Node} : held c c' → same c c' ∨ Parenthesizes held new c c'
  /-- There is nothing to do at new nodes. -/
  idle {n : Node} : new n → n.named = true → n.kind ∈ ["comment", "parenthesized_expression"]
  yields {n n' : Node} : same n n' → starred n = true → n.isYield = true
  star {n n' : Node} : same n n' → starred n = true → n'.hasStar = true

namespace Likeness

variable {same held : Node → Node → Prop} {new : Node → Prop} {starred : Node → Bool}
  (like : Likeness same held new starred) {n n' c c' : Node} {aliases : Aliases} {source : Bytes}

include like

theorem text (h : same n n') : n'.text source = n.text source := by
  rw [Node.text, Node.text, like.span h]

theorem isParenthesized (h : same n n') : n'.isParenthesized = n.isParenthesized := by
  rw [Node.isParenthesized, Node.isParenthesized, like.kind h]

theorem isYield (h : same n n') : n'.isYield = n.isYield := by
  rw [Node.isYield, Node.isYield, like.kind h]

theorem starred_of_not_yield (h : same n n') (hy : n.isYield = false) : starred n = false := by
  by_contra hstarred
  rw [like.yields h (by simpa using hstarred)] at hy
  cases hy

/-! ### Nodes below -/

theorem isSignificant (h : held c c') : c'.isSignificant = c.isSignificant := by
  rcases like.place h with h | h
  · rw [Node.isSignificant, Node.isSignificant, like.kind h, like.named h]
  · rw [h.operand.significant]
    simp [Node.isSignificant, h.named, h.kind]

theorem kind_eq_star (h : held c c') : (c'.kind == "*") = (c.kind == "*") := by
  rcases like.place h with h | h
  · rw [like.kind h]
  · have hstar : (c.kind == "*") = false := by simpa using h.operand.unstarred
    rw [h.kind, hstar]
    decide

theorem significantChildren (h : same n n') :
    List.Forall₂ held n.significantChildren n'.significantChildren :=
  ((like.children h).forall₂_filter (fun _ _ ⟨hc, _⟩ => like.isSignificant hc)
    fun _ hb => hb.filler.insignificant).imp fun _ _ ⟨hc, _⟩ => hc

theorem childByField? (h : same n n') (hy : n.isYield = false) (name : String) :
    Option.Rel held (n.childByField? name) (n'.childByField? name) := by
  have hfound : Option.Rel (fun c c' => held c c' ∧ c'.field = c.field) (n.childByField? name)
      (n'.childByField? name) := by
    refine (like.children h).find? (fun c c' ⟨_, hfield⟩ => ?_) fun b hb => ?_
    · rw [hfield]
    · rw [hb.unheld hy]
      rfl
  exact rel_imp hfound fun _ _ _ ⟨hc, _⟩ => hc

theorem hasStar (h : same n n') : n'.hasStar = (n.hasStar || starred n) := by
  cases hstarred : starred n with
  | true => rw [like.star h hstarred, Bool.or_true]
  | false =>
    rw [Bool.or_false]
    refine (like.children h).any (fun c c' ⟨hc, _⟩ => like.kind_eq_star hc) fun b hb => ?_
    simpa using hb.plain hstarred

theorem yieldArgument? (h : same n n') : Option.Rel held n.yieldArgument? n'.yieldArgument? := by
  rw [Node.yieldArgument?, Node.yieldArgument?, List.getLast?_eq_head?_reverse,
    List.getLast?_eq_head?_reverse]
  exact rel_head? (List.forall₂_reverse_iff.2 (like.significantChildren h))

/-- Among the children of a node that holds no operands, no parentheses are put in. -/
theorem children_of_not_holder (h : same n n') (hkind : n.kind ∉ Node.operandHolders) :
    Interspersed same Node.IsFiller n.children n'.children := by
  refine (like.children h).attach.imp (fun c c' ⟨⟨hc, _⟩, hmem, _⟩ => ?_)
    fun b ⟨hb, _⟩ => hb.filler
  rcases like.place hc with hsame | hparens
  · exact hsame
  · exact absurd (hparens.operand.parent hmem).1 hkind

/-- A child under a field is the same node, if no operand stands there. -/
theorem same_childByField? (h : same n n') (name : String)
    (hplace : n.kind ∈ Node.operandHolders → n.kind = "member_expression" ∧ name ≠ "object") :
    Option.Rel same (n.childByField? name) (n'.childByField? name) := by
  have hy : n.isYield = false := by
    rw [Node.isYield, beq_eq_false_iff_ne]
    intro hyield
    rw [hyield] at hplace
    exact absurd (hplace (by decide)).1 (by decide)
  refine rel_imp (like.childByField? h hy name) fun c hc c' hheld => ?_
  rcases like.place hheld with hsame | hparens
  · exact hsame
  · obtain ⟨hholder, hobject⟩ := hparens.operand.parent (List.mem_of_find?_eq_some hc)
    obtain ⟨hmember, hne⟩ := hplace hholder
    have hname : c.field = some name := by simpa using List.find?_some hc
    rw [hobject hmember, Option.some.injEq] at hname
    exact absurd hname.symm hne

/-! ### Expressions -/

/-- What holds an operand in parentheses is all that counts there. -/
theorem significantChildren_of_parenthesizes (h : Parenthesizes held new c c') :
    ∃ e, held c e ∧ c'.significantChildren = [e] := by
  obtain ⟨before, e, after, hchildren, he, hfillers⟩ := h.inside
  have hnone : ∀ bs : List Node, (∀ b ∈ bs, b ∈ before ++ after) →
      bs.filter (·.isSignificant) = [] := fun bs hbs =>
    List.filter_eq_nil_iff.2 fun b hb => by simp [(hfillers b (hbs b hb)).2.insignificant]
  have hbefore := hnone before fun b => List.mem_append_left after
  have hafter := hnone after fun b => List.mem_append_right before
  have hsignificant : e.isSignificant = true :=
    (like.isSignificant he).trans h.operand.significant
  refine ⟨e, he, ?_⟩
  rw [Node.significantChildren, hchildren, List.filter_append, hbefore,
    List.filter_cons_of_pos hsignificant, hafter, List.nil_append]

theorem unwrapParens {c c' : Node} (h : held c c') :
    Option.Rel same c.unwrapParens c'.unwrapParens := by
  rcases like.place h with hsame | hparens
  · have hparen := like.isParenthesized hsame
    cases hp : c.isParenthesized with
    | false =>
      rw [Node.unwrapParens_of_not hp, Node.unwrapParens_of_not (hparen.trans hp)]
      exact .some hsame
    | true =>
      rw [Node.unwrapParens_of_parenthesized hp,
        Node.unwrapParens_of_parenthesized (hparen.trans hp)]
      exact rel_bind (rel_head? (like.significantChildren hsame)) fun e e' hinside he =>
        unwrapParens he
  · obtain ⟨e, he, hinside⟩ := like.significantChildren_of_parenthesizes hparens
    have hparen : c'.isParenthesized = true := by simp [Node.isParenthesized, hparens.kind]
    rw [Node.unwrapParens_of_parenthesized hparen, hinside]
    exact unwrapParens he
termination_by c'.tree.size
decreasing_by
  · exact Node.size_lt_of_mem_significantChildren (List.mem_of_head? hinside)
  · exact Node.size_lt_of_mem_significantChildren (by simp [hinside])

theorem calleeKey? (h : same n n')
    (hcall : n.kind = "call_expression") : n'.calleeKey? source = n.calleeKey? source := by
  rw [Node.calleeKey?, Node.calleeKey?]
  have hy : n.isYield = false := by simp [Node.isYield, hcall]
  refine bind_eq_of_rel (like.childByField? h hy "function") fun f f' hf => ?_
  refine bind_eq_of_rel (like.unwrapParens hf) fun c c' hc => ?_
  rw [like.kind hc, like.text hc]
  split
  · rfl
  split
  · rename_i hmember
    have hy : c.isYield = false := by simp [Node.isYield, hmember]
    refine bind_eq_of_rel (like.childByField? hc hy "object") fun o o' ho => ?_
    refine bind_eq_of_rel (like.unwrapParens ho) fun o o' ho => ?_
    have hproperty := like.same_childByField? hc "property" fun _ => ⟨hmember, by decide⟩
    refine bind_eq_of_rel hproperty fun m m' hm => ?_
    rw [like.kind ho, like.text ho, like.text hm]
  · rfl

theorem isEffectCall {c c' : Node} (h : held c c') :
    c'.isEffectCall aliases source = c.isEffectCall aliases source := by
  rw [Node.isEffectCall_eq, Node.isEffectCall_eq]
  refine any_eq_of_rel (like.unwrapParens h) fun e hunwrapped e' he => ?_
  rw [like.kind he]
  cases hshape : Node.Shape.ofKind e.kind with
  | call => rw [like.calleeKey? he (Node.Shape.kind_of_call hshape)]
  | other => rfl
  | conditional =>
    have hy : e.isYield = false := by simp [Node.isYield, Node.Shape.kind_of_conditional hshape]
    have hcon : e'.consequence?.any (·.isEffectCall aliases source) =
        e.consequence?.any (·.isEffectCall aliases source) :=
      any_eq_of_rel (like.childByField? he hy "consequence") fun b hheld b' hb =>
        isEffectCall hb
    have halt : e'.alternative?.any (·.isEffectCall aliases source) =
        e.alternative?.any (·.isEffectCall aliases source) :=
      any_eq_of_rel (like.childByField? he hy "alternative") fun b hheld b' hb =>
        isEffectCall hb
    rw [hcon, halt]
termination_by c.tree.size
decreasing_by
  all_goals
    exact Nat.lt_of_lt_of_le (Node.size_lt_of_childByField? hheld)
      (Node.size_le_of_unwrapParens hunwrapped)

theorem isGenerator (h : same n n') : n'.isGenerator = n.isGenerator := by
  rw [Node.isGenerator, Node.isGenerator, like.kind h]
  cases hmethod : n.kind == "method_definition" with
  | false => rw [Bool.false_and, Bool.false_and]
  | true =>
    have hy : n.isYield = false := by
      rw [Node.isYield, beq_iff_eq.1 hmethod]
      decide
    rw [like.hasStar h, like.starred_of_not_yield h hy, Bool.or_false]

theorem any_effectiveParent? (h : same n n') :
    n'.effectiveParent?.any (·.isYield) = n.effectiveParent?.any (·.isYield) := by
  have hkind : Option.Rel Eq (n.effectiveParent?.map (·.kind))
      (n'.effectiveParent?.map (·.kind)) := by
    rw [Node.map_kind_effectiveParent?, Node.map_kind_effectiveParent?]
    exact (like.above h).find? (fun _ _ hsame => by rw [hsame]) fun _ hparens => by simp [hparens]
  have hyield : (n'.effectiveParent?.map (·.kind)).any (· == "yield_expression") =
      (n.effectiveParent?.map (·.kind)).any (· == "yield_expression") :=
    any_eq_of_rel hkind fun _ _ _ hsame => by rw [hsame]
  rwa [Option.any_map, Option.any_map] at hyield

/-! ### Imports -/

theorem stringValue (h : same n n') : n'.stringValue source = n.stringValue source := by
  rw [Node.stringValue, Node.stringValue, like.text h]

theorem specifierName (h : same n n') : n'.specifierName source = n.specifierName source := by
  rw [Node.specifierName, Node.specifierName, like.kind h, like.stringValue h, like.text h]

theorem importSource? (h : same n n') (himport : n.kind = "import_statement") :
    n'.importSource? source = n.importSource? source := by
  have hsource := like.same_childByField? h "source"
    fun hholder => absurd hholder (by rw [himport]; decide)
  exact map_eq_of_rel hsource fun _ _ hc => like.stringValue hc

theorem specifierBinding? (h : same n n') (hspec : n.kind = "import_specifier") :
    n'.specifierBinding? source = n.specifierBinding? source := by
  have hfield (name : String) : Option.Rel same (n.childByField? name) (n'.childByField? name) :=
    like.same_childByField? h name fun hholder => absurd hholder (by rw [hspec]; decide)
  rw [Node.specifierBinding?, Node.specifierBinding?]
  refine bind_eq_of_rel (hfield "name") fun m m' hm => ?_
  have halias := hfield "alias"
  rw [like.specifierName hm]
  generalize n.childByField? "alias" = x at halias ⊢
  generalize n'.childByField? "alias" = y at halias ⊢
  cases halias with
  | none => rfl
  | some ha => simp only [like.specifierName ha]

theorem namedChildren (h : same n n') (hkind : n.kind ∉ Node.operandHolders) :
    Interspersed same (fun b => b.kind = "comment") n.namedChildren n'.namedChildren :=
  ((like.children_of_not_holder h hkind).filter fun _ _ hc => like.named hc).imp
    (fun _ _ => id) fun _ ⟨hfiller, hnamed⟩ => hfiller.kind_of_named hnamed

/-- A comment is found by no other kind among the named children. -/
theorem find?_namedChildren (h : same n n')
    (hkind : n.kind ∉ Node.operandHolders) (kind : String) (hcomment : kind ≠ "comment") :
    Option.Rel (fun c c' => same c c' ∧ c.kind = kind) (n.namedChildren.find? (·.kind == kind))
      (n'.namedChildren.find? (·.kind == kind)) := by
  have hfound : Option.Rel same (n.namedChildren.find? (·.kind == kind))
      (n'.namedChildren.find? (·.kind == kind)) := by
    refine (like.namedChildren h hkind).find? (fun c c' hc => ?_) fun b hb => ?_
    · rw [like.kind hc]
    · simpa [hb] using hcomment.symm
  exact rel_imp hfound fun c hc _ hsame => ⟨hsame, by simpa using List.find?_some hc⟩

theorem filter_namedChildren (h : same n n')
    (hkind : n.kind ∉ Node.operandHolders) (kind : String) (hcomment : kind ≠ "comment") :
    List.Forall₂ (fun c c' => c.kind = kind ∧ same c c')
      (n.namedChildren.filter (·.kind == kind)) (n'.namedChildren.filter (·.kind == kind)) := by
  refine (List.forall₂_and_left _ _).2 ⟨fun c hc => by simpa using (List.mem_filter.1 hc).2, ?_⟩
  refine (like.namedChildren h hkind).forall₂_filter (fun c c' hc => ?_) fun b hb => ?_
  · rw [like.kind hc]
  · simpa [hb] using hcomment.symm

theorem clauseBindings (h : same n n') : n'.clauseBindings source = n.clauseBindings source := by
  rw [Node.clauseBindings, Node.clauseBindings, like.kind h, like.text h]
  split
  · rfl
  split
  · rename_i hkind
    have hname := like.find?_namedChildren h (by rw [hkind]; decide) "identifier" (by decide)
    generalize n.namedChildren.find? (·.kind == "identifier") = x at hname ⊢
    generalize n'.namedChildren.find? (·.kind == "identifier") = y at hname ⊢
    cases hname with
    | none => rfl
    | some hc => simp only [like.text hc.1]
  split
  · rename_i hkind
    have hspecs := like.filter_namedChildren h (by rw [hkind]; decide) "import_specifier"
      (by decide)
    exact filterMap_eq_of_forall₂ hspecs fun _ _ ⟨hspec, hc⟩ => like.specifierBinding? hc hspec
  · rfl

theorem importBindings (h : same n n') (himport : n.kind = "import_statement") :
    n'.importBindings source = n.importBindings source := by
  rw [Node.importBindings, Node.importBindings]
  have hclause := like.find?_namedChildren h (by rw [himport]; decide) "import_clause" (by decide)
  generalize n.namedChildren.find? (·.kind == "import_clause") = x at hclause ⊢
  generalize n'.namedChildren.find? (·.kind == "import_clause") = y at hclause ⊢
  cases hclause with
  | none => rfl
  | some hc =>
    refine (like.namedChildren hc.1 (by rw [hc.2]; decide)).flatMap_eq
      (fun _ _ hpart => like.clauseBindings hpart) fun part hpart => ?_
    rw [Node.clauseBindings, hpart]
    rfl

theorem observeImport (h : same n n')
    (himport : n.kind = "import_statement") (catalogue : Catalogue) :
    aliases.observeImport catalogue n' source = aliases.observeImport catalogue n source := by
  rw [Aliases.observeImport, Aliases.observeImport, like.importSource? h himport,
    like.importBindings h himport]

/-! ### Violations -/

theorem missesStar (h : same n n') :
    n'.missesStar aliases source = (n.missesStar aliases source && !starred n) := by
  rw [Node.missesStar, Node.missesStar, like.hasStar h,
    any_eq_of_rel (like.yieldArgument? h) fun _ _ _ he => like.isEffectCall he, Bool.not_or,
    Bool.and_right_comm]

theorem isBareCall (h : same n n') (hcall : n.kind = "call_expression") (nesting : Nesting) :
    n'.isBareCall aliases nesting source = n.isBareCall aliases nesting source := by
  have hcall' : n'.kind = "call_expression" := (like.kind h).trans hcall
  rw [Node.isBareCall, Node.isBareCall, like.any_effectiveParent? h,
    Node.resolveEffect_call hcall', Node.resolveEffect_call hcall, like.calleeKey? h hcall]

theorem starFix (h : same n n') : n'.starFix source = n.starFix source := by
  rw [Node.starFix, Node.starFix, like.span h, like.text h]

theorem yieldFix (h : same n n') : n'.yieldFix = n.yieldFix := by
  rw [Node.yieldFix, Node.yieldFix, like.span h]

end Likeness

end YieldLint
