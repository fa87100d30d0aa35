/-
A star in a yield clears the report on that yield, and no other.

`Node.Starred` says what becomes of a tree when the marked ones of its yields get a star each,
at any place among their children, and `Node.Delegated` what becomes of its nodes. Apart from
the new stars the rule is told the same of the two trees (`likeness_delegated`). So it reports
what it reported, in the same order, but for the marked yields (`check_eq_of_starred`): fixes
of different yields do not touch each other's reports, and with all yields marked that were
reported no yield is reported again. `Node.putStars` gives the marked yields their stars.
-/
import YieldLint.Proofs.BareCalls
import YieldLint.Proofs.LikeReports

namespace YieldLint

/-! ## Yields that get a star -/

/-- A token for a star. -/
structure Tree.IsStar (t : Tree) : Prop where
  childless : t.children = []
  unnamed : t.label.named = false
  kind : t.label.kind = "*"

namespace Node

/-- What a node becomes when each marked yield gets a star, at some place among its children,
and nothing else changes. -/
inductive Starred (marked : Node → Bool) : Node → Tree → Prop
  | keep {n : Node} {row : List Tree} (unmarked : marked n = false)
      (below : List.Forall₂ (fun c t => Starred marked c t) n.children row) :
      Starred marked n (.node n.label row)
  | put {n : Node} {before after : List Tree} {star : Tree} (mark : marked n = true)
      (yields : n.named = true ∧ n.kind = "yield_expression")
      (below : List.Forall₂ (fun c t => Starred marked c t) n.children (before ++ after))
      (isStar : star.IsStar) : Starred marked n (.node n.label (before ++ star :: after))

/-- A node, and what it has become where the marked yields have got their stars. -/
structure Delegated (marked : Node → Bool) (n n' : Node) : Prop where
  tree : n.Starred marked n'.tree
  above : n'.kindsAbove = n.kindsAbove

variable {marked : Node → Bool} {n n' : Node}

theorem Starred.label_eq {t : Tree} (h : n.Starred marked t) : t.label = n.label := by
  cases h <;> rfl

/-- A star is put in among the children of marked nodes only. -/
theorem Starred.children {t : Tree} (h : n.Starred marked t) :
    Interspersed (Starred marked) (fun b => b.IsStar ∧ marked n = true) n.children t.children := by
  cases h with
  | keep _ below => exact .of_forall₂ below
  | @put _ before after star mark _ below isStar =>
    have hbefore := List.forall₂_take_append _ _ _ below
    have hafter := List.forall₂_drop_append _ _ _ below
    rw [← List.take_append_drop before.length n.children]
    exact (Interspersed.of_forall₂ hbefore).append
      (.insert ⟨isStar, mark⟩ (.of_forall₂ hafter))

namespace Delegated

theorem label (h : n.Delegated marked n') : n'.label = n.label := h.tree.label_eq

theorem kind (h : n.Delegated marked n') : n'.kind = n.kind := by
  rw [Node.kind, h.label]
  rfl

theorem children (h : n.Delegated marked n') :
    Interspersed (Delegated marked) (fun b => b.tree.IsStar ∧ marked n = true)
      n.children n'.children := by
  have hrow := h.tree.children
  rw [← map_tree_children] at hrow
  refine hrow.of_map_right.attach.imp (fun c c' ⟨hc, hmem, hmem'⟩ => ⟨hc, ?_⟩)
    fun b ⟨hb, _⟩ => hb
  rw [kindsAbove_of_mem_children hmem, kindsAbove_of_mem_children hmem', h.kind, h.above]

/-- A marked yield has a star. -/
theorem hasStar (h : n.Delegated marked n') (mark : marked n = true) :
    n.isYield = true ∧ n'.hasStar = true := by
  have htree := h.tree
  generalize ht : n'.tree = t at htree
  cases htree with
  | keep unmarked _ =>
    rw [mark] at unmarked
    cases unmarked
  | @put _ before after star _ yields _ isStar =>
    have hmem : star ∈ n'.children.map (·.tree) := by
      rw [map_tree_children, ht]
      exact List.mem_append_right before List.mem_cons_self
    obtain ⟨b, hb, rfl⟩ := List.mem_map.1 hmem
    exact ⟨by simp [isYield, yields.2], List.any_eq_true.2 ⟨b, hb, beq_iff_eq.2 isStar.kind⟩⟩

end Delegated

theorem likeness_delegated (marked : Node → Bool) :
    Likeness (Delegated marked) (Delegated marked) (·.tree.IsStar) marked where
  kind h := h.kind
  named h := by rw [named, h.label]; rfl
  span h := by rw [span, h.label]; rfl
  above h := by
    rw [h.above]
    exact .of_forall₂ (List.forall₂_refl _)
  children {n n'} h := by
    refine h.children.attach.imp (fun c c' ⟨hc, _, _⟩ => ⟨hc, ?_⟩) fun b ⟨⟨hstar, mark⟩, _⟩ => ?_
    · rw [field, hc.label]
      rfl
    · exact {
        isNew := hstar
        filler := .of_plain hstar.childless fun hnamed => by
          cases hnamed.symm.trans hstar.unnamed
        unheld := fun hy => by
          rw [(h.hasStar mark).1] at hy
          cases hy
        plain := fun unmarked => by
          rw [mark] at unmarked
          cases unmarked }
  place h := .inl h
  idle hstar hnamed := by cases hnamed.symm.trans hstar.unnamed
  yields h mark := (h.hasStar mark).1
  star h mark := (h.hasStar mark).2

end Node

/-! ## The reports that are left -/

namespace Rule

/-- **Stars clear the reports on their yields, and do nothing else.** Give each marked yield of
a tree a star. The nodes of the tree are then there in the same order, with the stars in
between; and whatever node a check starts from, it finds with the same fixes, and reports in
the same order, what it finds and reports in the tree without the new stars, but for the
marked yields. With all yields marked that were found, it reports no yield. -/
theorem check_eq_of_starred {marked : Node → Bool} {t t' : Tree}
    (h : (Node.ofTree t).Starred marked t') (rule : Rule) (source : Bytes) (path : String) :
    Interspersed (Node.Delegated marked) (·.tree.IsStar) (Node.ofTree t).preorder
        (Node.ofTree t').preorder ∧
      ∀ n n', n.Delegated marked n' →
        let left := (rule.findings source n).filter (!marked ·.anchor)
        List.Forall₂ (Finding.Same (Node.Delegated marked)) left (rule.findings source n') ∧
        rule.check source path n' = left.map (rule.report source path) ∧
        ((∀ f ∈ rule.findings source n, f.anchor.kind = "yield_expression" →
            marked f.anchor = true) →
          ∀ v ∈ rule.check source path n', v.nodeType ≠ "yield_expression") := by
  have like := Node.likeness_delegated marked
  refine ⟨like.preorder ⟨h, rfl⟩, ?_⟩
  intro n n' hn left
  have hcheck : rule.check source path n' = left.map (rule.report source path) :=
    like.check rule source path hn
  refine ⟨like.findings rule source hn, hcheck, fun hall v hv hyield => ?_⟩
  rw [hcheck] at hv
  obtain ⟨f, hf, rfl⟩ := List.mem_map.1 hv
  obtain ⟨hfound, hunmarked⟩ := List.mem_filter.1 hf
  rw [hall f hfound hyield] at hunmarked
  cases hunmarked

end Rule

/-! ## Yields of one's choice -/

namespace Node

/-- The tree below a node, with a star behind the first child of each marked node. -/
def putStars (marked : Node → Bool) (n : Node) : Tree :=
  let row := n.children.attach.map fun c => c.1.putStars marked
  let star : Tree := .node { kind := "*", named := false, field := none, span := n.span } []
  .node n.label (if marked n then row.take 1 ++ star :: row.drop 1 else row)
termination_by n.tree.size
decreasing_by exact size_lt_of_mem_children c.2

theorem starred_putStars {marked : Node → Bool} (n : Node) (hyields : ∀ m ∈ n.preorder,
    marked m = true → m.named = true ∧ m.kind = "yield_expression") :
    n.Starred marked (n.putStars marked) := by
  have hrow : List.Forall₂ (fun c t => c.Starred marked t) n.children
      (n.children.attach.map fun c => c.1.putStars marked) := by
    rw [List.map_subtype (g := putStars marked) fun _ _ => rfl, List.unattach_attach,
      List.forall₂_map_right_iff]
    refine List.forall₂_same.2 fun c hc => starred_putStars c fun m hm => hyields m ?_
    rw [preorder_eq]
    exact List.mem_cons_of_mem _ (List.mem_flatMap.2 ⟨c, hc, hm⟩)
  rw [putStars]
  cases mark : marked n with
  | false => exact .keep mark hrow
  | true =>
    refine .put mark (hyields n n.self_mem_preorder mark) ?_ ⟨rfl, rfl, rfl⟩
    rwa [List.take_append_drop]
termination_by n.tree.size
decreasing_by exact size_lt_of_mem_children hc

end Node

open NestedSaga in
/-- A star in the inner one of the two yields of the saga clears the report on that yield
alone, and stars in both leave no report on a yield. -/
theorem check_nestedSaga_starred :
    let n := Node.ofTree (tree true false false)
    let yields (m : Node) : Bool := m.named && m.isYield
    let inner (m : Node) : Bool := m.named && m.isYield && m.ancestors.any (·.isYield)
    let rule : Rule := {}
    n.Starred inner (n.putStars inner) ∧ n.Starred yields (n.putStars yields) ∧
      (rule.check (source false false) "a.js" n).length = 2 ∧
      (rule.check (source false false) "a.js" (.ofTree (n.putStars inner))).length = 1 ∧
      ∀ v ∈ rule.check (source false false) "a.js" (.ofTree (n.putStars yields)),
        v.nodeType ≠ "yield_expression" := by
  intro n yields inner rule
  have hinner : n.Starred inner (n.putStars inner) := n.starred_putStars fun m _ hm => by
    simp only [inner, Bool.and_eq_true, Node.isYield, beq_iff_eq] at hm
    exact hm.1
  have hyields : n.Starred yields (n.putStars yields) := n.starred_putStars fun m _ hm => by
    simpa [yields, Node.isYield] using hm
  obtain ⟨-, hless⟩ := Rule.check_eq_of_starred hinner rule (source false false) "a.js"
  obtain ⟨-, hnone⟩ := Rule.check_eq_of_starred hyields rule (source false false) "a.js"
  have hleft := (hless n (.ofTree (n.putStars inner)) ⟨hinner, rfl⟩).2.1
  refine ⟨hinner, hyields, by decide +kernel, ?_, (hnone n (.ofTree (n.putStars yields)) ⟨hyields, rfl⟩).2.2 ?_⟩
  · rw [hleft, List.length_map]
    decide +kernel
  · decide +kernel

end YieldLint
