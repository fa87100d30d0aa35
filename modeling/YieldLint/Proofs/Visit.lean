/-
A walk is the recursive traversal: enter a node, visit its children in order,
leave it (`events_eq_visit`). The cursor's levels are the part of the traversal
that is still to come.

What a walk has done when it reaches a node is said by two lists: the nodes that
it entered so far, which stand before in preorder, and the nodes above. What a
step function keeps of these lists at every event, it keeps over a whole visit
(`KeepsUp.foldl_visit`) and has at every moment of a walk (`KeepsUp.moment`).
-/
import YieldLint.Tree.Walk

namespace YieldLint

namespace Node

/-- What holds of a node when it holds of its children holds of every node. -/
theorem children_induction {P : Node → Prop} (step : ∀ n, (∀ c ∈ n.children, P c) → P n)
    (n : Node) : P n :=
  step n fun c _ => children_induction step c
termination_by n.tree.size
decreasing_by exact size_lt_of_mem_children ‹_›

/-! ## The recursive traversal -/

/-- The events of visiting a node: it is entered, its children are visited in
order, and it is left. -/
def visit (n : Node) : List Event :=
  .enter n :: (n.children.attach.flatMap fun c => c.1.visit) ++ [.exit n]
termination_by n.tree.size
decreasing_by exact size_lt_of_mem_children c.2

theorem visit_eq (n : Node) : n.visit = .enter n :: n.children.flatMap visit ++ [.exit n] := by
  rw [visit]
  congr 2
  exact List.flatMap_subtype (fun _ _ => rfl) |>.trans (by rw [List.unattach_attach])

end Node

namespace Cursor

/-- A row of siblings is visited in order, and then its parent is left, given that
each of them is visited below before it is left. -/
theorem events_siblings {parent : Node} {levels : List Level} (right : List Node) :
    ∀ first : Node,
      (∀ n ∈ first :: right, ∀ levels, events .arriving ⟨n, levels⟩ =
        .enter n :: n.children.flatMap Node.visit ++ events .leaving ⟨n, levels⟩) →
      events .arriving ⟨first, ⟨parent, right⟩ :: levels⟩ =
        (first :: right).flatMap Node.visit ++ events .leaving ⟨parent, levels⟩ := by
  induction right with
  | nil =>
    intro first below
    rw [below first (by simp), events_up (d := ⟨parent, levels⟩) rfl rfl]
    simp [Node.visit_eq first]
  | cons next right ih =>
    intro first below
    have hnext := ih next fun n hn => below n (List.mem_cons_of_mem _ hn)
    rw [below first (by simp), events_nextSibling (d := ⟨next, ⟨parent, right⟩ :: levels⟩) rfl,
      hnext]
    simp [Node.visit_eq first]

/-- What is below a node is visited between entering and leaving it. -/
theorem events_arriving (n : Node) : ∀ levels, events .arriving ⟨n, levels⟩ =
    .enter n :: n.children.flatMap Node.visit ++ events .leaving ⟨n, levels⟩ := by
  induction n using Node.children_induction with
  | step n below =>
    intro levels
    cases hc : n.children with
    | nil =>
      have hleaf : firstChild? ⟨n, levels⟩ = none := by simp [firstChild?, hc]
      rw [events_leaf hleaf]
      rfl
    | cons first right =>
      have hfirst : firstChild? ⟨n, levels⟩ = some ⟨first, ⟨n, right⟩ :: levels⟩ := by
        simp [firstChild?, hc]
      rw [events_firstChild hfirst, events_siblings right first (hc ▸ below)]
      rfl

end Cursor

/-- **A walk is the recursive traversal.** -/
theorem Node.events_eq_visit (n : Node) : n.events = n.visit := by
  rw [events, Cursor.set, Cursor.events_arriving, Cursor.events_end rfl rfl, visit_eq]

/-! ## Preorder -/

namespace Node

theorem pairwise_index_preorder (n : Node) :
    n.preorder.Pairwise fun a b => a.index < b.index := by
  have h := List.pairwise_lt_range' (s := n.index) (n := n.tree.size)
  rw [← n.map_index_preorder, List.pairwise_map] at h
  exact h

/-- The nodes of a smaller place are those that stand before. -/
theorem filter_index_lt_preorder {top n : Node} {before after : List Node}
    (h : top.preorder = before ++ n :: after) :
    top.preorder.filter (fun m => decide (m.index < n.index)) = before := by
  have hsorted := top.pairwise_index_preorder
  rw [h, List.pairwise_append, List.pairwise_cons] at hsorted
  obtain ⟨-, ⟨hafter, -⟩, hbefore⟩ := hsorted
  have hb : before.filter (fun m => decide (m.index < n.index)) = before :=
    List.filter_eq_self.2 fun m hm => by simpa using hbefore m hm n (by simp)
  have ha : (n :: after).filter (fun m => decide (m.index < n.index)) = [] :=
    List.filter_eq_nil_iff.2 fun m hm => by
      rcases List.mem_cons.1 hm with rfl | hm
      · simp
      · simpa using Nat.le_of_lt (hafter m hm)
  rw [h, List.filter_append, hb, ha, List.append_nil]

/-- The nodes below a node. -/
def below (n : Node) : List Node := n.children.flatMap preorder

theorem index_lt_of_mem_children {c n : Node} (h : c ∈ n.children) : n.index < c.index := by
  have hsorted := n.pairwise_index_preorder
  rw [preorder_eq, List.pairwise_cons] at hsorted
  exact hsorted.1 c (List.mem_flatMap.2 ⟨c, h, c.self_mem_preorder⟩)

/-- Siblings stand in order, each behind all that is below the one before. -/
theorem pairwise_index_children (n : Node) :
    n.children.Pairwise fun a b => a.index + a.tree.size ≤ b.index := by
  have hsorted := n.pairwise_index_preorder
  rw [preorder_eq, List.pairwise_cons, List.pairwise_flatMap] at hsorted
  refine hsorted.2.2.imp fun {a b} hab => ?_
  have hsize := a.tree.size_pos
  have hlast : a.index + a.tree.size - 1 ∈ a.preorder.map (·.index) := by
    rw [map_index_preorder, List.mem_range'_1]
    omega
  obtain ⟨m, hm, hindex⟩ := List.mem_map.1 hlast
  have hbefore := hab m hm b b.self_mem_preorder
  omega

theorem preorder_subset_of_mem_children {c n : Node} (h : c ∈ n.children) :
    c.preorder ⊆ n.preorder := fun m hm => by
  rw [preorder_eq]
  exact List.mem_cons_of_mem n (List.mem_flatMap.2 ⟨c, h, hm⟩)

/-- What holds at the top, and of each child of a node of which it holds, holds of
every node below the top. -/
theorem preorder_induction {P : Node → Prop} {top n : Node} (h : n ∈ top.preorder)
    (self : P top) (child : ∀ m ∈ top.preorder, P m → ∀ c ∈ m.children, P c) : P n := by
  induction top using children_induction with
  | step top below =>
    rw [preorder_eq] at h
    rcases List.mem_cons.1 h with rfl | h
    · exact self
    · obtain ⟨c, hc, h⟩ := List.mem_flatMap.1 h
      exact below c hc h (child top top.self_mem_preorder self c hc)
        fun m hm => child m (preorder_subset_of_mem_children hc hm)

theorem preorder_subset {n top : Node} (h : n ∈ top.preorder) : n.preorder ⊆ top.preorder :=
  preorder_induction (P := fun n => n.preorder ⊆ top.preorder) h (List.Subset.refl _)
    fun _ _ hm _ hc => List.Subset.trans (preorder_subset_of_mem_children hc) hm

end Node

/-- The node that is entered or left. -/
def Event.node : Event → Node
  | .enter n => n
  | .exit n => n

namespace Node

/-- A visit meets no node but those below. -/
theorem node_mem_preorder {n : Node} {e : Event} (h : e ∈ n.visit) : e.node ∈ n.preorder := by
  induction n using children_induction with
  | step n below =>
    rw [visit_eq, List.cons_append, List.mem_cons, List.mem_append, List.mem_singleton,
      List.mem_flatMap] at h
    obtain rfl | ⟨c, hc, he⟩ | rfl := h
    · exact n.self_mem_preorder
    · exact preorder_subset_of_mem_children hc (below c hc he)
    · exact n.self_mem_preorder

/-! ## The nodes above -/

/-- How many nodes stand above. -/
def depth (n : Node) : Nat := n.above.length

/-- The nodes of a chain of trees, each below the next. -/
def ofChain : List Placed → List Node
  | [] => []
  | p :: rest => { toPlaced := p, above := rest } :: ofChain rest

/-- The nodes above, the parent first. -/
def ancestors (n : Node) : List Node := ofChain n.above

/-- The nodes above, up to the node that a walk starts from, and that node. -/
def ancestorsWithin (n top : Node) : List Node :=
  n.ancestors.filter fun m => decide (top.depth ≤ m.depth)

theorem ancestors_of_mem_children {c n : Node} (h : c ∈ n.children) :
    c.ancestors = n :: n.ancestors := by
  obtain ⟨p, _, rfl⟩ := List.mem_map.1 h
  rfl

theorem depth_of_mem_children {c n : Node} (h : c ∈ n.children) : c.depth = n.depth + 1 := by
  obtain ⟨p, _, rfl⟩ := List.mem_map.1 h
  rfl

theorem depth_lt_of_mem_ancestors {m n : Node} (h : m ∈ n.ancestors) : m.depth < n.depth := by
  obtain ⟨⟨t, i⟩, above⟩ := n
  simp only [ancestors, depth] at h ⊢
  induction above with
  | nil => simp [ofChain] at h
  | cons p rest ih =>
    rcases List.mem_cons.1 h with rfl | h
    · simp
    · exact Nat.lt_succ_of_lt (ih h)

theorem ancestorsWithin_self (n : Node) : n.ancestorsWithin n = [] := by
  rw [ancestorsWithin, List.filter_eq_nil_iff]
  intro m hm
  simpa using depth_lt_of_mem_ancestors hm

theorem filter_depth_ancestors {n top : Node} (hd : top.depth ≤ n.depth) :
    (n :: n.ancestors).filter (fun m => decide (top.depth ≤ m.depth)) =
      n :: n.ancestorsWithin top :=
  List.filter_cons_of_pos (by simpa using hd)

theorem ancestorsWithin_of_mem_children {c n top : Node} (h : c ∈ n.children)
    (hd : top.depth ≤ n.depth) : c.ancestorsWithin top = n :: n.ancestorsWithin top := by
  rw [ancestorsWithin, ancestors_of_mem_children h, filter_depth_ancestors hd]

theorem depth_le_of_mem_preorder {n top : Node} (h : n ∈ top.preorder) : top.depth ≤ n.depth :=
  preorder_induction (P := fun n => top.depth ≤ n.depth) h (Nat.le_refl _) fun m _ hm c hc => by
    rw [depth_of_mem_children hc]; omega

/-- The nodes between a node and the top are below the top. -/
theorem mem_preorder_of_mem_ancestorsWithin {m n top : Node} (hn : n ∈ top.preorder)
    (hm : m ∈ n.ancestorsWithin top) : m ∈ top.preorder := by
  refine preorder_induction (P := fun n => ∀ m ∈ n.ancestorsWithin top, m ∈ top.preorder)
    hn ?_ ?_ m hm
  · simp [ancestorsWithin_self]
  · intro n hn ih c hc m hm
    rw [ancestorsWithin_of_mem_children hc (depth_le_of_mem_preorder hn)] at hm
    rcases List.mem_cons.1 hm with rfl | hm
    · exact hn
    · exact ih m hm

end Node

/-! ## Runs over a visit -/

section Runs

variable {σ : Type} {top : Node} {f : σ → Event → σ} {I : List Node → List Node → σ → Prop}

/-- A step function keeps up what is said of a state by the nodes entered and the
nodes above: entering a node adds it to both, and leaving it takes it off the nodes
above. -/
structure KeepsUp (top : Node) (f : σ → Event → σ) (I : List Node → List Node → σ → Prop) :
    Prop where
  enter : ∀ n before after s, top.preorder = before ++ n :: after → top.depth ≤ n.depth →
    I before n.ancestors s → I (before ++ [n]) (n :: n.ancestors) (f s (.enter n))
  exit : ∀ n before after s, top.preorder = before ++ n.preorder ++ after →
    top.depth ≤ n.depth → I (before ++ n.preorder) (n :: n.ancestors) s →
    I (before ++ n.preorder) n.ancestors (f s (.exit n))

namespace KeepsUp

/-- A run over the visits of siblings, given what it does on each of them. -/
theorem foldl_siblings {above : List Node} : ∀ (ns : List Node) (before after : List Node) (s : σ),
    (∀ n ∈ ns, ∀ before after s, top.preorder = before ++ n.preorder ++ after →
      I before above s → I (before ++ n.preorder) above (n.visit.foldl f s)) →
    top.preorder = before ++ ns.flatMap Node.preorder ++ after →
    I before above s →
    I (before ++ ns.flatMap Node.preorder) above ((ns.flatMap Node.visit).foldl f s)
  | [], before, after, s, _, _, hs => by simpa using hs
  | n :: ns, before, after, s, each, h, hs => by
    have hn := each n (by simp) before (ns.flatMap Node.preorder ++ after) s (by simpa using h) hs
    have hns := foldl_siblings ns (before ++ n.preorder) after _
      (fun m hm => each m (List.mem_cons_of_mem _ hm)) (by simpa using h) hn
    rw [List.flatMap_cons, List.flatMap_cons, List.foldl_append, ← List.append_assoc]
    exact hns

/-- **What each event keeps up, a visit keeps up.** -/
theorem foldl_visit (hk : KeepsUp top f I) (n : Node) : ∀ before after s,
    top.preorder = before ++ n.preorder ++ after → top.depth ≤ n.depth →
    I before n.ancestors s → I (before ++ n.preorder) n.ancestors (n.visit.foldl f s) := by
  induction n using Node.children_induction with
  | step n below =>
    intro before after s h hd hs
    have hsplit : top.preorder = before ++ n :: (n.children.flatMap Node.preorder ++ after) := by
      rw [h, Node.preorder_eq n]
      simp
    have hbelow : ∀ c ∈ n.children, ∀ before after s,
        top.preorder = before ++ c.preorder ++ after → I before (n :: n.ancestors) s →
        I (before ++ c.preorder) (n :: n.ancestors) (c.visit.foldl f s) := by
      intro c hc before after s h hs
      have hc' := below c hc before after s h (by rw [Node.depth_of_mem_children hc]; omega)
      rw [Node.ancestors_of_mem_children hc] at hc'
      exact hc' hs
    have hentered := hk.enter n before _ s hsplit hd hs
    have hchildren := foldl_siblings n.children (before ++ [n]) after _ hbelow
      (by simpa using hsplit) hentered
    have hpre : before ++ [n] ++ n.children.flatMap Node.preorder = before ++ n.preorder := by
      rw [Node.preorder_eq n]
      simp
    rw [hpre] at hchildren
    have hleft := hk.exit n before after _ h hd hchildren
    rw [Node.visit_eq]
    simpa only [List.foldl_append, List.foldl_cons, List.foldl_nil] using hleft

/-- A step that also writes down the event, with the state in which it finds it. -/
def record (f : σ → Event → σ) (r : σ × List (Event × σ)) (e : Event) : σ × List (Event × σ) :=
  (f r.1 e, (e, r.1) :: r.2)

theorem foldl_record_fst (es : List Event) : ∀ r : σ × List (Event × σ),
    (es.foldl (record f) r).1 = es.foldl f r.1 := by
  induction es with
  | nil => intro r; rfl
  | cons e es ih => intro r; exact ih _

theorem mem_foldl_record {x : Event × σ} (es : List Event) : ∀ r : σ × List (Event × σ),
    x ∈ r.2 → x ∈ (es.foldl (record f) r).2 := by
  induction es with
  | nil => intro r h; exact h
  | cons e es ih => intro r h; exact ih _ (List.mem_cons_of_mem _ h)

/-- What is said of the state in which an event of the walk is found. -/
def Found (top : Node) (I : List Node → List Node → σ → Prop) : Event × σ → Prop
  | (.enter n, s) => ∃ before after, top.preorder = before ++ n :: after ∧ I before n.ancestors s
  | (.exit n, s) => ∃ before after, top.preorder = before ++ n.preorder ++ after ∧
      I (before ++ n.preorder) (n :: n.ancestors) s

theorem record_found (hk : KeepsUp top f I) : KeepsUp top (record f)
    fun before above r => I before above r.1 ∧ ∀ x ∈ r.2, Found top I x where
  enter n before after r h hd hr := by
    refine ⟨hk.enter n before after r.1 h hd hr.1, fun x hx => ?_⟩
    rcases List.mem_cons.1 hx with rfl | hx
    · exact ⟨before, after, h, hr.1⟩
    · exact hr.2 x hx
  exit n before after r h hd hr := by
    refine ⟨hk.exit n before after r.1 h hd hr.1, fun x hx => ?_⟩
    rcases List.mem_cons.1 hx with rfl | hx
    · exact ⟨before, after, h, hr.1⟩
    · exact hr.2 x hx

/-- **What each event keeps up holds at every moment of a walk.** -/
theorem moment (hk : KeepsUp top f I) {s : σ} (hs : I [] top.ancestors s) {done todo : List Event}
    {e : Event} (h : top.events = done ++ e :: todo) : Found top I (e, done.foldl f s) := by
  have hrun := hk.record_found.foldl_visit top [] [] (s, []) (by simp) (Nat.le_refl _)
    ⟨hs, by simp⟩
  refine hrun.2 _ ?_
  rw [← Node.events_eq_visit, h, List.foldl_append, List.foldl_cons]
  refine mem_foldl_record todo _ ?_
  simp [record, foldl_record_fst]

end KeepsUp

end Runs

end YieldLint
