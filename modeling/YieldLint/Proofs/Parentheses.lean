/-
Parentheses make no difference to what the rule reports.

`Node.HeldBy` says of a node which trees may take its place when operands of the rule are put
in parentheses, at as many places as one likes: the node, with trees below that take the
places of its children; and, for an operand, a pair of parentheses around such a tree, with
comments and tokens beside it. `Node.Enclosed` says of a node, and of what it has become, that
this is so below them and that nothing but parentheses has come in above.

The rule is told the same of both (`likeness_enclosed`): where it finds parentheses it looks
at what is inside, and above a node it passes them by. So it reports the same
(`check_eq_of_heldBy`). `Node.enclose` puts the operands of one's choice in parentheses.
-/
import YieldLint.Proofs.BareCalls
import YieldLint.Proofs.LikeReports

namespace YieldLint

/-! ## Operands put in parentheses -/

/-- A comment, or a token: nothing is below it. -/
structure Tree.IsFiller (t : Tree) : Prop where
  childless : t.children = []
  plain : t.label.named = true → t.label.kind = "comment"

namespace Node

/-- What takes the place of a node, under some field: the node, with what takes the places of
its children, or parentheses around an operand, with fillers beside it. -/
inductive HeldBy : Node → Option String → Tree → Prop
  | bare {n : Node} {field : Option String} {row : List Tree}
      (below : List.Forall₂ (fun c t => HeldBy c c.field t) n.children row) :
      HeldBy n field (.node { n.label with field } row)
  | parens {n : Node} {field inner : Option String} {span : Span} {t : Tree}
      {before after : List Tree} (operand : n.IsOperand) (inside : HeldBy n inner t)
      (fillers : ∀ b ∈ before ++ after, b.IsFiller) :
      HeldBy n field (.node { kind := "parenthesized_expression", named := true, field, span }
        (before ++ t :: after))

/-- A node, and what it has become where operands are put in parentheses. -/
structure Enclosed (n n' : Node) : Prop where
  label : n'.label = { n.label with field := n'.field }
  below : List.Forall₂ (fun c t => c.HeldBy c.field t) n.children n'.tree.children
  above : Interspersed Eq (· = "parenthesized_expression") n.kindsAbove n'.kindsAbove

/-- A pair of parentheses that is put in, or a comment or a token beside an operand in it. -/
def IsEnclosing (n : Node) : Prop := n.isParenthesized = true ∨ n.tree.IsFiller

/-- A node, and what takes its place among the children of its parent. -/
structure Held (c c' : Node) : Prop where
  tree : ∃ field, c.HeldBy field c'.tree
  above : Interspersed Eq (· = "parenthesized_expression") c.kindsAbove c'.kindsAbove

theorem HeldBy.field_eq {n : Node} {field : Option String} {t : Tree} (h : n.HeldBy field t) :
    t.label.field = field := by
  cases h <;> rfl

/-- What a node has become holds the places of its children in their fields, and no others. -/
theorem Enclosed.children {n n' : Node} (h : n.Enclosed n') {extra : Node → Prop} :
    Interspersed (fun c c' => c.Held c' ∧ c'.field = c.field) extra n.children n'.children := by
  have hrow : List.Forall₂ (fun c c' => c.HeldBy c.field c'.tree) n.children n'.children := by
    rw [← List.forall₂_map_right_iff, map_tree_children]
    exact h.below
  have hkind : n.kind = n'.kind := by rw [kind, kind, h.label]
  refine (Interspersed.of_forall₂ hrow).attach.imp (fun c c' hrelated => ?_) fun _ hno => hno.1
  obtain ⟨hc, hmem, hmem'⟩ := hrelated
  refine ⟨⟨⟨c.field, hc⟩, ?_⟩, hc.field_eq⟩
  rw [kindsAbove_of_mem_children hmem, kindsAbove_of_mem_children hmem']
  exact .keep hkind h.above

theorem Held.place {c c' : Node} (h : c.Held c') :
    c.Enclosed c' ∨ Parenthesizes Held IsEnclosing c c' := by
  obtain ⟨⟨field, htree⟩, habove⟩ := h
  generalize ht : c'.tree = t at htree
  cases htree with
  | @bare _ _ row below =>
    refine .inl ⟨?_, ?_, habove⟩
    · rw [Node.field, label, ht]
      rfl
    · rw [ht]
      exact below
  | @parens _ _ inner span t before after operand inside fillers =>
    have hchildren : c'.children.map (·.tree) = before ++ t :: after := by
      rw [map_tree_children, ht]
      rfl
    obtain ⟨before', rest, hsplit, hbefore, hrest⟩ := List.map_eq_append_iff.1 hchildren
    obtain ⟨e, after', rfl, he, hafter⟩ := List.map_eq_cons_iff.1 hrest
    have hparens : c'.kind = "parenthesized_expression" := by
      rw [kind, label, ht]
      rfl
    refine .inr ⟨operand, by rw [named, label, ht]; rfl, hparens,
      .inl (by simp [isParenthesized, hparens]), before', e, after', hsplit, ⟨⟨inner, ?_⟩, ?_⟩, ?_⟩
    · rwa [he]
    · have hmem : e ∈ c'.children := by simp [hsplit]
      rw [kindsAbove_of_mem_children hmem]
      exact .insert hparens habove
    · intro b hb
      have hfiller : b.tree.IsFiller := fillers b.tree <| by
        rw [← hbefore, ← hafter, ← List.map_append]
        exact List.mem_map_of_mem hb
      exact ⟨.inr hfiller, .of_plain hfiller.childless hfiller.plain⟩

/-- A root has no place under another node, so that it stays the root. -/
theorem HeldBy.enclosed_ofTree {t t' : Tree} {field : Option String}
    (h : (ofTree t).HeldBy field t') : (ofTree t).Enclosed (ofTree t') := by
  have hheld : (ofTree t).Held (ofTree t') := ⟨⟨_, h⟩, .nil⟩
  rcases hheld.place with hsame | hparens
  · exact hsame
  · obtain ⟨p, hp, -⟩ := hparens.operand.place
    cases hp

theorem likeness_enclosed : Likeness Enclosed Held IsEnclosing fun _ => false where
  kind h := by rw [kind, h.label]; rfl
  named h := by rw [named, h.label]; rfl
  span h := by rw [span, h.label]; rfl
  above h := h.above
  children h := h.children
  place h := h.place
  idle h hnamed := by
    rcases h with hparens | hfiller
    · exact List.mem_pair.2 (.inr (by simpa [isParenthesized] using hparens))
    · exact List.mem_pair.2 (.inl (hfiller.plain hnamed))
  yields _ hstarred := nomatch hstarred
  star _ hstarred := nomatch hstarred

end Node

/-! ## Violations under parentheses -/

namespace Rule

/-- **Parentheses make no difference.** Put operands in parentheses, at any places of a tree
and with comments and tokens beside them: what a yield yields, branches of conditionals,
callees of calls, objects of members. The nodes of the tree are then there in the same order,
with the parentheses and what came with them in between; and whatever node a check starts
from, the same is found with the same fixes, and it reports what it reports without the
parentheses. -/
theorem check_eq_of_heldBy {t t' : Tree} (h : (Node.ofTree t).HeldBy t.label.field t')
    (rule : Rule) (source : Bytes) (path : String) :
    Interspersed Node.Enclosed Node.IsEnclosing (Node.ofTree t).preorder (Node.ofTree t').preorder ∧
      ∀ n n', n.Enclosed n' →
        List.Forall₂ (Finding.Same Node.Enclosed) (rule.findings source n)
          (rule.findings source n') ∧
        rule.check source path n' = rule.check source path n := by
  refine ⟨Node.likeness_enclosed.preorder h.enclosed_ofTree, fun n n' hn => ?_⟩
  have hfindings := Node.likeness_enclosed.findings rule source hn
  have hcheck := Node.likeness_enclosed.check rule source path hn
  simp only [Bool.not_false, List.filter_true] at hfindings hcheck
  exact ⟨hfindings, hcheck⟩

end Rule

/-! ## Operands of one's choice -/

namespace Node

instance (n : Node) : Decidable n.IsOperand :=
  decidable_of_iff (n.isSignificant = true ∧ n.kind ≠ "*" ∧ ∃ p ∈ n.parent?,
      (p.kind = "yield_expression" ∧ p.yieldArgument? = some n ∨
        p.kind = "ternary_expression" ∧ (p.consequence? = some n ∨ p.alternative? = some n) ∨
        p.kind = "call_expression" ∧ p.childByField? "function" = some n ∨
        p.kind = "member_expression" ∧ p.childByField? "object" = some n))
    ⟨fun h => ⟨h.1, h.2.1, h.2.2⟩, fun h => ⟨h.significant, h.unstarred, h.place⟩⟩

/-- The tree below a node with the chosen ones of its operands in parentheses. -/
def enclose (chosen : Node → Bool) (n : Node) : Tree :=
  let row := n.children.attach.map fun c => c.1.enclose chosen
  let token (kind : String) : Tree :=
    .node { kind, named := false, field := none, span := n.span } []
  if n.IsOperand ∧ chosen n = true then
    .node { kind := "parenthesized_expression", named := true, field := n.field, span := n.span }
      [token "(", .node { n.label with field := none } row, token ")"]
  else .node n.label row
termination_by n.tree.size
decreasing_by exact size_lt_of_mem_children c.2

theorem heldBy_enclose (chosen : Node → Bool) (n : Node) :
    n.HeldBy n.field (n.enclose chosen) := by
  have hrow : List.Forall₂ (fun c t => c.HeldBy c.field t) n.children
      (n.children.attach.map fun c => c.1.enclose chosen) := by
    rw [List.map_subtype (g := enclose chosen) fun _ _ => rfl, List.unattach_attach,
      List.forall₂_map_right_iff]
    exact List.forall₂_same.2 fun c hc => heldBy_enclose chosen c
  rw [enclose]
  split
  · rename_i h
    refine @HeldBy.parens n _ none _ _ [_] [_] h.1 (.bare hrow) fun b hb => ?_
    rcases List.mem_pair.1 hb with rfl | rfl
    · exact ⟨rfl, nofun⟩
    · exact ⟨rfl, nofun⟩
  · exact .bare hrow
termination_by n.tree.size
decreasing_by exact size_lt_of_mem_children hc

end Node

open NestedSaga in
/-- Both yields of the saga are reported alike with what they yield, and with what is called
there, in parentheses. -/
theorem check_nestedSaga_enclosed :
    let t := tree true false false
    let t' := (Node.ofTree t).enclose fun _ => true
    let reported := ({} : Rule).check (source false false) "a.js" (.ofTree t)
    (Node.ofTree t).HeldBy t.label.field t' ∧ t'.size = t.size + 12 ∧ reported.length = 2 ∧
      ({} : Rule).check (source false false) "a.js" (.ofTree t') = reported := by
  intro t t' reported
  have hheld : (Node.ofTree t).HeldBy t.label.field t' := Node.heldBy_enclose _ _
  refine ⟨hheld, by decide +kernel, by decide +kernel, ?_⟩
  obtain ⟨-, hsame⟩ := Rule.check_eq_of_heldBy hheld {} (source false false) "a.js"
  exact (hsame _ _ hheld.enclosed_ofTree).2

end YieldLint
