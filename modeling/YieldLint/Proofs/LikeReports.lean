/-
Where trees look alike, the rule reports alike.

A walk over the second of two trees with a `Likeness` has the events of a walk over the first,
and events at new nodes among them (`Likeness.visit`), at which nothing is done. What is found
at a node is found at what has become of it, unless that is a yield with a new star
(`Likeness.handle`). So a check of the second tree reports what a check of the first does,
less the yields with a new star (`Likeness.check`).
-/
import YieldLint.Proofs.Likeness

namespace YieldLint

/-! ## Walks past new nodes -/

/-- The same event, at a node and at what has become of it. -/
inductive Event.Same (same : Node → Node → Prop) : Event → Event → Prop
  | enter {n n' : Node} (node : same n n') : Event.Same same (.enter n) (.enter n')
  | exit {n n' : Node} (node : same n n') : Event.Same same (.exit n) (.exit n')

/-- An event at a new node. -/
inductive Event.IsNew (new : Node → Prop) : Event → Prop
  | enter {n : Node} (node : new n) : Event.IsNew new (.enter n)
  | exit {n : Node} (node : new n) : Event.IsNew new (.exit n)

/-- The node that is entered, on entering one. -/
def Event.entered? : Event → Option Node
  | .enter n => some n
  | .exit _ => none

/-- Nodes are entered in preorder. -/
theorem Node.filterMap_entered?_visit (n : Node) :
    n.visit.filterMap Event.entered? = n.preorder := by
  induction n using Node.children_induction with
  | step n below =>
    have hbelow : (n.children.flatMap visit).filterMap Event.entered? =
        n.children.flatMap preorder := by
      rw [List.filterMap_flatMap, List.flatMap_def, List.map_congr_left below, ← List.flatMap_def]
    rw [visit_eq, preorder_eq, List.filterMap_append, List.filterMap_cons, hbelow]
    simp [Event.entered?]

theorem Node.IsFiller.visit {n : Node} {new : Node → Prop} (h : n.IsFiller) (hnew : new n) :
    ∀ e ∈ n.visit, e.IsNew new := by
  rw [visit_eq, h.childless]
  intro e he
  rcases List.mem_pair.1 he with rfl | rfl
  · exact .enter hnew
  · exact .exit hnew

namespace Likeness

variable {same held : Node → Node → Prop} {new : Node → Prop} {starred : Node → Bool}
  (like : Likeness same held new starred) {n n' : Node}

include like

theorem visit_of_children (h : same n n') (below : ∀ c, ∀ c' ∈ n'.children, held c c' →
      Interspersed (Event.Same same) (Event.IsNew new) c.visit c'.visit) :
    Interspersed (Event.Same same) (Event.IsNew new) n.visit n'.visit := by
  rw [Node.visit_eq, Node.visit_eq]
  have hrow : Interspersed (Event.Same same) (Event.IsNew new) (n.children.flatMap Node.visit)
      (n'.children.flatMap Node.visit) :=
    (like.children h).attach.flatMap (fun c _ c' ⟨⟨hc, _⟩, _, hmem⟩ => below c c' hmem hc)
      fun b ⟨hb, _⟩ => hb.filler.visit hb.isNew
  exact .append (.keep (.enter h) hrow) (.keep (.exit h) .nil)

theorem visit_of_held {c c' : Node} (h : held c c') :
    Interspersed (Event.Same same) (Event.IsNew new) c.visit c'.visit := by
  rcases like.place h with hsame | hparens
  · exact like.visit_of_children hsame fun b b' hmem hb => visit_of_held hb
  · obtain ⟨before, e, after, hchildren, he, hfillers⟩ := hparens.inside
    have hinside := visit_of_held he
    have hrow : ∀ bs : List Node, (∀ b ∈ bs, b ∈ before ++ after) →
        Interspersed (Event.Same same) (Event.IsNew new) [] (bs.flatMap Node.visit) := by
      refine fun bs hbs => .of_extra fun e he => ?_
      obtain ⟨b, hb, he⟩ := List.mem_flatMap.1 he
      obtain ⟨hnew, hfiller⟩ := hfillers b (hbs b hb)
      exact hfiller.visit hnew e he
    have hbefore := hrow before fun b => List.mem_append_left after
    have hafter := hrow after fun b => List.mem_append_right before
    rw [Node.visit_eq c', hchildren, List.flatMap_append, List.flatMap_cons]
    have hall := ((hbefore.append (hinside.append hafter)).append
      (.insert (.exit hparens.isNew) .nil))
    rw [List.nil_append, List.append_nil, List.append_nil] at hall
    exact .insert (.enter hparens.isNew) hall
termination_by c'.tree.size
decreasing_by
  · exact Node.size_lt_of_mem_children hmem
  · exact Node.size_lt_of_mem_children (by simp [hchildren])

/-- Visiting the second tree is visiting the first, and new nodes in between. -/
theorem visit (h : same n n') : Interspersed (Event.Same same) (Event.IsNew new) n.visit n'.visit :=
  like.visit_of_children h fun _ _ _ => like.visit_of_held

/-- The nodes of the second tree are those of the first, in the same order, and new nodes
in between. -/
theorem preorder (h : same n n') : Interspersed same new n.preorder n'.preorder := by
  rw [← Node.filterMap_entered?_visit, ← Node.filterMap_entered?_visit]
  refine (like.visit h).filterMap (fun e e' he => ?_) fun e he m hm => ?_
  · cases he with
    | enter node => exact .some node
    | exit node => exact .none
  · cases he with
    | enter node =>
      cases hm
      exact node
    | exit node => cases hm

end Likeness

/-! ## What is found on like walks -/

/-- What is found alike: a node, and the same fix at what has become of it. -/
structure Finding.Same (same : Node → Node → Prop) (f f' : Finding) : Prop where
  anchor : same f.anchor f'.anchor
  fix : f'.fix = f.fix

/-- Two states of a walk in which the rule knows the same, and has found the same but for
nodes with a new star. -/
structure Rule.Pass.Same (same : Node → Node → Prop) (starred : Node → Bool) (p p' : Rule.Pass) :
    Prop where
  aliases : p'.aliases = p.aliases
  nesting : p'.nesting = p.nesting
  findings : List.Forall₂ (Finding.Same same) (p.findings.filter (!starred ·.anchor)) p'.findings

namespace Likeness

variable {same held : Node → Node → Prop} {new : Node → Prop} {starred : Node → Bool}
  (like : Likeness same held new starred) {n n' : Node} {rule : Rule} {source : Bytes}
  {path : String}

theorem forall₂_found {P Q : Prop} [Decidable P] [Decidable Q] {f f' : Finding}
    (h : f.Same same f') (hiff : Q ↔ P ∧ starred f.anchor = false) :
    List.Forall₂ (Finding.Same same) ((if P then [f] else []).filter (!starred ·.anchor))
      (if Q then [f'] else []) := by
  by_cases hP : P
  · cases hstarred : starred f.anchor with
    | true => simp [hP, hiff, hstarred]
    | false => simpa [hP, hiff, hstarred] using h
  · simp [hP, hiff]

include like

/-- The rule does nothing at new nodes. -/
theorem handle_of_isNew {e : Event} (h : e.IsNew new)
    (p : Rule.Pass) : (rule.hooks source).handle p e = p := by
  have hcall : ∀ (table : String → Option (Node → Rule.Pass → Rule.Pass)) {n : Node},
      table "comment" = none → table "parenthesized_expression" = none → new n →
      Hooks.call table n p = p := by
    intro table n hcomment hparens hn
    rw [Hooks.call]
    split
    · rename_i hnamed
      rcases List.mem_pair.1 (like.idle hn hnamed) with hkind | hkind
      · rw [hkind, hcomment]
      · rw [hkind, hparens]
    · rfl
  cases h with
  | enter node =>
    exact hcall (rule.hooks source).enter (by simp [Rule.hooks, Node.functionKinds])
      (by simp [Rule.hooks, Node.functionKinds]) node
  | exit node =>
    exact hcall (rule.hooks source).exit (by simp [Rule.hooks, Node.functionKinds])
      (by simp [Rule.hooks, Node.functionKinds]) node

theorem isImport (h : same n n') : n'.isImport = n.isImport := by
  rw [Node.isImport, Node.isImport, like.named h, like.kind h]

theorem opensYield (h : same n n') : n'.opensYield = n.opensYield := by
  rw [Node.opensYield, Node.opensYield, like.named h, like.isYield h]

theorem opensGenerator (h : same n n') : n'.opensGenerator = n.opensGenerator := by
  rw [Node.opensGenerator, Node.opensGenerator, like.named h, like.isGenerator h]

/-- At a node, and at what has become of it, the rule does the same, but that it does not
find a node with a new star. -/
theorem handle {e e' : Event} (he : e.Same same e')
    {p p' : Rule.Pass} (h : p.Same same starred p') :
    ((rule.hooks source).handle p e).Same same starred ((rule.hooks source).handle p' e') := by
  cases he with
  | exit node =>
    rw [Rule.handle_exit, Rule.handle_exit, like.opensGenerator node, like.opensYield node,
      h.nesting]
    exact ⟨h.aliases, rfl, h.findings⟩
  | @enter n n' node =>
    rw [Rule.handle_enter, Rule.handle_enter, like.opensGenerator node, like.opensYield node,
      like.isImport node, like.named node, like.kind node, h.aliases, h.nesting]
    refine ⟨?_, rfl, ?_⟩
    · cases himport : n.isImport with
      | false => rfl
      | true =>
        simp only [if_true, like.observeImport node (Node.kind_of_isImport himport)]
    · dsimp only
      rw [List.filter_append]
      refine List.rel_append h.findings ?_
      by_cases hyield : n.kind = "yield_expression"
      · simp only [hyield, true_and, String.reduceEq, false_and, and_false, if_false]
        refine forall₂_found ⟨node, like.starFix node⟩ ?_
        simp [like.missesStar node, and_assoc]
      · have hstarred : starred n = false :=
          like.starred_of_not_yield node (by simpa [Node.isYield])
        simp only [hyield, false_and, and_false, if_false]
        refine forall₂_found ⟨node, like.yieldFix node⟩ ?_
        by_cases hcall : n.kind = "call_expression"
        · simp [like.isBareCall node hcall, hstarred]
        · simp [hcall]

theorem report_of_same {f f' : Finding}
    (h : f.Same same f') : rule.report source path f' = rule.report source path f := by
  simp only [Rule.report, like.span h.anchor, like.kind h.anchor, like.text h.anchor, h.fix]

variable (rule source path)

/-- Where trees look alike, the same is found but for the yields with a new star. -/
theorem findings (h : same n n') :
    List.Forall₂ (Finding.Same same) ((rule.findings source n).filter (!starred ·.anchor))
      (rule.findings source n') := by
  have hkeep : ∀ (e e' : Event) (p p' : Rule.Pass), e.Same same e' → p.Same same starred p' →
      ((rule.hooks source).handle p e).Same same starred ((rule.hooks source).handle p' e') :=
    fun _ _ _ _ he hp => like.handle he hp
  have hnew : ∀ (e : Event) (p p' : Rule.Pass), e.IsNew new → p.Same same starred p' →
      p.Same same starred ((rule.hooks source).handle p' e) :=
    fun e p p' he hp => by rwa [like.handle_of_isNew he]
  have hwalk := (like.visit h).foldl hkeep hnew {} {} ⟨rfl, rfl, .nil⟩
  rw [Rule.findings, Rule.findings, Node.walk, Node.walk, Node.events_eq_visit,
    Node.events_eq_visit]
  exact hwalk.findings

/-- **Where trees look alike, the rule reports the same**, but for the yields with a new star. -/
theorem check (h : same n n') : rule.check source path n' =
      ((rule.findings source n).filter (!starred ·.anchor)).map (rule.report source path) :=
  map_eq_of_forall₂ (like.findings rule source h) fun _ _ => like.report_of_same

end Likeness

end YieldLint
