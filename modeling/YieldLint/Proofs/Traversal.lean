/-
What a walk calls, and in which order.

The loop of a walk moves its cursor from event to event of the recursive traversal, and
ends after the last of them (`map_event_moved`), which is twice the number of nodes
(`length_visit`). At each event it calls the hook for the kind of the node, if the node is
named and there is one; so what it calls is the traversal with the other events left out
(`Hooks.calls`, `walk_is_traversal`). Leaving out the events at some nodes keeps entries and
exits in brackets (`nested_filter_visit`).
-/
import Mathlib.Data.List.Nodup
import YieldLint.Proofs.BareCalls

namespace YieldLint

/-! ## The loop of a walk -/

namespace Cursor

/-- What happens where a walk stands. -/
def event : Visit × Cursor → Event
  | (.arriving, c) => .enter c.focus
  | (.leaving, c) => .exit c.focus

/-- One move of a walk, unless it has ended. -/
def move? : Visit × Cursor → Option (Visit × Cursor)
  | (.arriving, c) =>
    match c.firstChild? with
    | some d => some (.arriving, d)
    | none => some (.leaving, c)
  | (.leaving, c) =>
    match c.nextSibling? with
    | some d => some (.arriving, d)
    | none => c.up?.map (Prod.mk .leaving)

/-- Where a walk stands after so many moves, unless it has ended before. -/
def moved? : Nat → Visit × Cursor → Option (Visit × Cursor)
  | 0, place => some place
  | k + 1, place => (move? place).bind (moved? k)

/-- The events of the rest of a walk are what happens now, and the events after the next
move. -/
theorem events_eq_move? (v : Visit) (c : Cursor) : events v c =
    event (v, c) :: match move? (v, c) with
      | some place => events place.1 place.2
      | none => [] := by
  cases v with
  | arriving =>
    cases hchild : c.firstChild? with
    | some d => rw [events_firstChild hchild, move?, hchild]; rfl
    | none => rw [events_leaf hchild, move?, hchild]; rfl
  | leaving =>
    cases hnext : c.nextSibling? with
    | some d => rw [events_nextSibling hnext, move?, hnext]; rfl
    | none =>
      cases hup : c.up? with
      | some d => rw [events_up hnext hup, move?, hnext, hup]; rfl
      | none => rw [events_end hnext hup, move?, hnext, hup]; rfl

theorem map_event_moved? (k : Nat) : ∀ place : Visit × Cursor,
    (moved? k place).map event = (events place.1 place.2)[k]? := by
  induction k with
  | zero => intro place; rw [events_eq_move?]; rfl
  | succ k ih =>
    intro place
    rw [events_eq_move?, moved?, List.getElem?_cons_succ]
    cases move? place with
    | some next => exact ih next
    | none => rfl

end Cursor

/-! ## The traversal -/

namespace Node

theorem length_visit (n : Node) : n.visit.length = 2 * n.tree.size := by
  induction n using children_induction with
  | step n below =>
    have hchildren : (n.children.map fun c => c.visit.length).sum =
        2 * Tree.sizes n.tree.children := by
      rw [List.map_congr_left below, ← n.map_tree_children]
      induction n.children with
      | nil => rfl
      | cons c cs ih => rw [List.map_cons, List.sum_cons, ih, List.map_cons, Tree.sizes]; omega
    rw [visit_eq, List.length_append, List.length_cons, List.length_flatMap, hchildren,
      n.tree.size_eq, List.length_singleton]
    omega

theorem nodup_preorder (n : Node) : n.preorder.Nodup := by
  refine n.pairwise_index_preorder.imp ?_
  rintro a b hab rfl
  exact Nat.lt_irrefl _ hab

theorem not_mem_below (n : Node) : n ∉ n.below := by
  have h := n.nodup_preorder
  rw [preorder_eq, List.nodup_cons] at h
  exact h.1

theorem pairwise_disjoint_children (n : Node) :
    n.children.Pairwise fun a b => ∀ m ∈ a.preorder, m ∉ b.preorder := by
  have h := n.nodup_preorder
  rw [preorder_eq, List.nodup_cons, List.nodup_flatMap] at h
  exact h.2.2.imp fun {_ _} hab _ ha hb => hab ha hb

theorem nodup_visit (n : Node) : n.visit.Nodup := by
  induction n using children_induction with
  | step n below =>
    have hself : ∀ e ∈ n.children.flatMap visit, e.node ≠ n := by
      intro e he hn
      obtain ⟨c, hc, he⟩ := List.mem_flatMap.1 he
      have hmem := node_mem_preorder he
      rw [hn] at hmem
      exact n.not_mem_below (List.mem_flatMap.2 ⟨c, hc, hmem⟩)
    have hchildren : (n.children.flatMap visit).Nodup :=
      List.nodup_flatMap.2 ⟨below, n.pairwise_disjoint_children.imp fun {_ _} hab _ ha hb =>
        hab _ (node_mem_preorder ha) (node_mem_preorder hb)⟩
    rw [visit_eq, List.cons_append, List.nodup_cons, List.nodup_append]
    refine ⟨fun h => ?_, hchildren, List.nodup_singleton _, fun e he f hf hef => ?_⟩
    · rcases List.mem_append.1 h with h | h
      · exact hself _ h rfl
      · exact Event.noConfusion (List.mem_singleton.1 h)
    · exact hself e he (by rw [hef, List.mem_singleton.1 hf]; rfl)

theorem mem_visit_iff {n : Node} {e : Event} : e ∈ n.visit ↔ e.node ∈ n.preorder := by
  refine ⟨node_mem_preorder, fun h => ?_⟩
  induction n using children_induction with
  | step n below =>
    rw [preorder_eq] at h
    rw [visit_eq]
    rcases List.mem_cons.1 h with h | h
    · cases e with
      | enter m => obtain rfl : m = n := h; simp
      | exit m => obtain rfl : m = n := h; simp
    · obtain ⟨c, hc, h⟩ := List.mem_flatMap.1 h
      have hmem : e ∈ n.children.flatMap visit := List.mem_flatMap.2 ⟨c, hc, below c hc h⟩
      simp [hmem]

/-- The traversal of a node stands in one stretch in that of a node above, and what is
outside meets none of its nodes. -/
theorem exists_visit_eq {n top : Node} (h : n ∈ top.preorder) :
    ∃ before after, top.visit = before ++ n.visit ++ after ∧
      ∀ e ∈ before ++ after, e.node ∉ n.preorder := by
  have hstretch : ∃ before after, top.visit = before ++ n.visit ++ after := by
    refine preorder_induction
      (P := fun n => ∃ before after, top.visit = before ++ n.visit ++ after) h
      ⟨[], [], by simp⟩ fun m _ ⟨before, after, hm⟩ c hc => ?_
    obtain ⟨left, right, hrow⟩ := List.append_of_mem hc
    refine ⟨before ++ .enter m :: left.flatMap visit,
      right.flatMap visit ++ .exit m :: after, ?_⟩
    rw [hm, visit_eq m, hrow]
    simp
  obtain ⟨before, after, hvisit⟩ := hstretch
  refine ⟨before, after, hvisit, fun e he hn => ?_⟩
  have hnodup := top.nodup_visit
  rw [hvisit, List.append_assoc, List.nodup_append] at hnodup
  obtain ⟨-, hrest, hbefore⟩ := hnodup
  have hin := mem_visit_iff.2 hn
  rcases List.mem_append.1 he with he | he
  · exact hbefore e he e (List.mem_append_left _ hin) rfl
  · exact (List.nodup_append.1 hrest).2.2 e hin e he rfl

end Node

/-! ## Brackets -/

/-- Each node that is entered is left, and between the two are whole nodes only. -/
inductive Event.Nested : List Event → Prop
  | nil : Event.Nested []
  | node (n : Node) {below rest : List Event} (inside : Event.Nested below)
      (behind : Event.Nested rest) : Event.Nested (.enter n :: below ++ .exit n :: rest)

theorem Event.Nested.append {es fs : List Event} (hes : Event.Nested es)
    (hfs : Event.Nested fs) : Event.Nested (es ++ fs) := by
  induction hes with
  | nil => exact hfs
  | node n inside _ _ ih => simpa using Event.Nested.node n inside ih

theorem Event.Nested.flatMap {α : Type} {f : α → List Event} {as : List α}
    (h : ∀ a ∈ as, Event.Nested (f a)) : Event.Nested (as.flatMap f) := by
  induction as with
  | nil => exact .nil
  | cons a as ih =>
    exact (h a List.mem_cons_self).append (ih fun b hb => h b (List.mem_cons_of_mem _ hb))

/-- The events of a traversal at some of its nodes are in brackets. -/
theorem Node.nested_filter_visit (keep : Node → Bool) (n : Node) :
    Event.Nested (n.visit.filter fun e => keep e.node) := by
  induction n using children_induction with
  | step n below =>
    have hchildren : Event.Nested ((n.children.flatMap visit).filter fun e => keep e.node) := by
      rw [List.filter_flatMap]
      exact .flatMap below
    rw [visit_eq, List.cons_append, List.filter_cons, List.filter_append, List.filter_singleton]
    cases hn : keep n with
    | true => simpa [Event.node, hn] using Event.Nested.node n hchildren .nil
    | false => simpa [Event.node, hn] using hchildren

/-! ## Calls -/

namespace Hooks

variable {σ : Type} (hooks : Hooks σ)

/-- What is called at an event: the hook for the kind of the node, if the node is named and
there is one. -/
def hook? : Event → Option (σ → σ)
  | .enter n => if n.named then (hooks.enter n.kind).map fun hook => hook n else none
  | .exit n => if n.named then (hooks.exit n.kind).map fun hook => hook n else none

/-- The events of visiting a node at which something is called. -/
def calls (n : Node) : List Event := n.visit.filter fun e => (hooks.hook? e).isSome

/-- Entering a node and leaving it both call something. -/
def pairs (n : Node) : Bool :=
  (hooks.hook? (.enter n)).isSome && (hooks.hook? (.exit n)).isSome

theorem handle_eq (s : σ) (e : Event) :
    hooks.handle s e = match hooks.hook? e with
      | some hook => hook s
      | none => s := by
  cases e with
  | enter n =>
    rw [handle, call, hook?]
    by_cases hnamed : n.named = true
    · rw [if_pos hnamed, if_pos hnamed]; cases hooks.enter n.kind <;> rfl
    · rw [if_neg hnamed, if_neg hnamed]
  | exit n =>
    rw [handle, call, hook?]
    by_cases hnamed : n.named = true
    · rw [if_pos hnamed, if_pos hnamed]; cases hooks.exit n.kind <;> rfl
    · rw [if_neg hnamed, if_neg hnamed]

theorem foldl_handle (es : List Event) : ∀ s : σ, es.foldl hooks.handle s =
    ((es.filter fun e => (hooks.hook? e).isSome).filterMap hooks.hook?).foldl
      (fun s hook => hook s) s := by
  induction es with
  | nil => intro s; rfl
  | cons e es ih =>
    intro s
    rw [List.foldl_cons, handle_eq, ih]
    cases he : hooks.hook? e with
    | some hook => simp [he]
    | none => simp [he]

theorem calls_eq (n : Node) : hooks.calls n =
    [.enter n].filter (fun e => (hooks.hook? e).isSome) ++ n.children.flatMap hooks.calls ++
      [.exit n].filter (fun e => (hooks.hook? e).isSome) := by
  rw [calls, Node.visit_eq, ← List.singleton_append, List.filter_append, List.filter_append,
    List.filter_flatMap]
  rfl

theorem mem_calls_iff {top : Node} {e : Event} :
    e ∈ hooks.calls top ↔ e.node ∈ top.preorder ∧ (hooks.hook? e).isSome = true := by
  rw [calls, List.mem_filter, Node.mem_visit_iff]

theorem isSome_hook?_enter (n : Node) : (hooks.hook? (.enter n)).isSome = true ↔
    n.named = true ∧ (hooks.enter n.kind).isSome = true := by
  rw [hook?]
  split <;> simp_all

theorem isSome_hook?_exit (n : Node) : (hooks.hook? (.exit n)).isSome = true ↔
    n.named = true ∧ (hooks.exit n.kind).isSome = true := by
  rw [hook?]
  split <;> simp_all

theorem exists_calls_eq {n top : Node} (h : n ∈ top.preorder) :
    ∃ before after, hooks.calls top = before ++ hooks.calls n ++ after ∧
      ∀ e ∈ before ++ after, e.node ∉ n.preorder := by
  obtain ⟨before, after, hvisit, hout⟩ := Node.exists_visit_eq h
  refine ⟨before.filter fun e => (hooks.hook? e).isSome,
    after.filter fun e => (hooks.hook? e).isSome, ?_, fun e he => hout e ?_⟩
  · rw [calls, hvisit, List.filter_append, List.filter_append]
    rfl
  · rw [← List.filter_append] at he
    exact List.mem_of_mem_filter he

/-- The calls at nodes with both hooks are in brackets. -/
theorem nested_filter_calls (top : Node) :
    Event.Nested ((hooks.calls top).filter fun e => hooks.pairs e.node) := by
  have hboth : (hooks.calls top).filter (fun e => hooks.pairs e.node) =
      top.visit.filter fun e => hooks.pairs e.node := by
    rw [calls, List.filter_filter]
    refine List.filter_congr fun e _ => ?_
    cases e with
    | enter n => simp only [Event.node, pairs]; cases (hooks.hook? (.enter n)).isSome <;> simp
    | exit n => simp only [Event.node, pairs]; cases (hooks.hook? (.exit n)).isSome <;> simp
  rw [hboth]
  exact top.nested_filter_visit hooks.pairs

end Hooks

/-- **A walk calls what the recursive traversal calls.** The loop of a walk stands after so
many moves at the event of that place in the traversal from its start, and has ended after
as many events as twice the nodes below. It calls, one after another, the hooks of the calls,
which are those of the recursive traversal: at each named node below the start with a hook
for its kind once on entering it and once on leaving it, and nowhere else. All that is called
below a node is called between, in one stretch, so that calls on entering and on leaving are
in brackets. -/
theorem Node.walk_is_traversal {σ : Type} (top : Node) (hooks : Hooks σ) (s : σ) :
    (∀ k, (Cursor.moved? k (.arriving, .set top)).map Cursor.event = top.visit[k]?) ∧
    top.visit.length = 2 * top.tree.size ∧
    top.walk hooks s =
      ((hooks.calls top).filterMap hooks.hook?).foldl (fun s hook => hook s) s ∧
    (∀ n, hooks.calls n =
      [.enter n].filter (fun e => (hooks.hook? e).isSome) ++ n.children.flatMap hooks.calls ++
        [.exit n].filter (fun e => (hooks.hook? e).isSome)) ∧
    (hooks.calls top).Nodup ∧
    (∀ n, .enter n ∈ hooks.calls top ↔
      n ∈ top.preorder ∧ n.named = true ∧ (hooks.enter n.kind).isSome = true) ∧
    (∀ n, .exit n ∈ hooks.calls top ↔
      n ∈ top.preorder ∧ n.named = true ∧ (hooks.exit n.kind).isSome = true) ∧
    (∀ n ∈ top.preorder, ∃ before after, hooks.calls top = before ++ hooks.calls n ++ after ∧
      ∀ e ∈ before ++ after, e.node ∉ n.preorder) ∧
    Event.Nested ((hooks.calls top).filter fun e => hooks.pairs e.node) := by
  have hevents : Cursor.events .arriving (.set top) = top.visit := top.events_eq_visit
  refine ⟨fun k => ?_, top.length_visit, ?_, hooks.calls_eq, top.nodup_visit.filter _,
    fun n => ?_, fun n => ?_, fun n hn => hooks.exists_calls_eq hn,
    hooks.nested_filter_calls top⟩
  · rw [Cursor.map_event_moved?, hevents]
  · rw [walk, events_eq_visit]
    exact hooks.foldl_handle top.visit s
  · rw [hooks.mem_calls_iff, hooks.isSome_hook?_enter]
    rfl
  · rw [hooks.mem_calls_iff, hooks.isSome_hook?_exit]
    rfl

namespace NestedSaga

/-- Writes down the places of the yields that are entered and left. -/
def recording : Hooks (List (Bool × Nat)) where
  enter kind := if kind = "yield_expression" then some fun n s => s ++ [(true, n.index)] else none
  exit kind := if kind = "yield_expression" then some fun n s => s ++ [(false, n.index)] else none

end NestedSaga

open NestedSaga in
/-- A walk over the saga meets the inner yield inside the outer one; a walk from the
arguments of the outer call meets the inner yield alone. -/
theorem walk_nestedSaga_is_traversal :
    let top := Node.ofTree (tree true false false)
    ∃ arguments ∈ top.preorder,
      top.walk recording [] = [(true, 8), (true, 13), (false, 13), (false, 8)] ∧
      arguments.walk recording [] = [(true, 13), (false, 13)] ∧
      ∃ before after, recording.calls top = before ++ recording.calls arguments ++ after ∧
        ∀ e ∈ before ++ after, e.node ∉ arguments.preorder := by
  intro top
  have hmem : ∃ arguments ∈ top.preorder,
      arguments.walk recording [] = [(true, 13), (false, 13)] := by decide +kernel
  obtain ⟨arguments, harguments, hwalk⟩ := hmem
  obtain ⟨-, -, -, -, -, -, -, hstretch, -⟩ := top.walk_is_traversal recording []
  exact ⟨arguments, harguments, by decide +kernel, hwalk, hstretch arguments harguments⟩

end YieldLint
