/-
Depth-first walks with a cursor.

A `Cursor` stands on a node and keeps, for every level that it went down, the
parent and the siblings still to its right. It moves to the first child, to the
next sibling or up, and never above the node where it was set. A walk arrives
at a node before its children and leaves it after them; `remaining` falls with
every move, so that every walk ends.

`walk` hands the events at named nodes to the hooks of their kinds. Unnamed
nodes are passed over: keywords share their kinds with real nodes.
-/
import YieldLint.Tree.Basic

namespace YieldLint

/-- A level that a cursor went down: the node above, and the siblings still to
come. -/
structure Level where
  parent : Node
  right : List Node

/-- A node, and the levels between it and the node where the cursor was set. -/
structure Cursor where
  focus : Node
  levels : List Level

/-- A walk reaches a node twice, before its children and after them. -/
inductive Visit where
  | arriving
  | leaving

inductive Event where
  | enter (n : Node)
  | exit (n : Node)

namespace Cursor

/-- A cursor set on a node: nothing beside it and nothing above. -/
def set (n : Node) : Cursor := { focus := n, levels := [] }

def firstChild? (c : Cursor) : Option Cursor :=
  match c.focus.children with
  | [] => none
  | n :: right => some { focus := n, levels := { parent := c.focus, right } :: c.levels }

def nextSibling? (c : Cursor) : Option Cursor :=
  match c.levels with
  | { parent, right := n :: right } :: levels =>
    some { focus := n, levels := { parent, right } :: levels }
  | _ => none

def up? (c : Cursor) : Option Cursor :=
  match c.levels with
  | { parent, .. } :: levels => some { focus := parent, levels }
  | [] => none

/-! ## The end of a walk -/

/-- A bound on the events of a row of nodes still to be visited. -/
def pending : List Node → Nat
  | [] => 0
  | n :: ns => 2 * n.tree.size + pending ns

/-- A bound on the events still to come behind the node that a cursor stands on. -/
def pendingAbove : List Level → Nat
  | [] => 0
  | l :: levels => pending l.right + 1 + pendingAbove levels

/-- A bound on the events still to come. -/
def remaining (v : Visit) (c : Cursor) : Nat :=
  (match v with
    | .arriving => 2 * c.focus.tree.size
    | .leaving => 1) + pendingAbove c.levels

theorem pending_children (n : Node) : pending n.children + 2 = 2 * n.tree.size := by
  have h : ∀ ns : List Node, pending ns = 2 * Tree.sizes (ns.map (·.tree)) := by
    intro ns
    induction ns with
    | nil => rfl
    | cons n ns ih => rw [pending, ih, List.map_cons, Tree.sizes]; omega
  rw [h, n.map_tree_children, n.tree.size_eq]
  omega

theorem remaining_firstChild {c d : Cursor} (h : c.firstChild? = some d) :
    d.remaining .arriving < c.remaining .arriving := by
  unfold firstChild? at h
  split at h
  · simp at h
  · rename_i n right hc
    simp only [Option.some.injEq] at h
    subst h
    have hp := pending_children c.focus
    rw [hc] at hp
    simp only [pending] at hp
    simp only [remaining, pendingAbove]
    omega

theorem remaining_leave (c : Cursor) : c.remaining .leaving < c.remaining .arriving := by
  have := c.focus.tree.size_pos
  simp only [remaining]
  omega

theorem remaining_nextSibling {c d : Cursor} (h : c.nextSibling? = some d) :
    d.remaining .arriving < c.remaining .leaving := by
  obtain ⟨focus, levels⟩ := c
  unfold nextSibling? at h
  split at h
  · rename_i parent n right levels' hl
    simp only at hl
    subst hl
    simp only [Option.some.injEq] at h
    subst h
    simp only [remaining, pendingAbove, pending]
    omega
  · simp at h

theorem remaining_up {c d : Cursor} (h : c.up? = some d) :
    d.remaining .leaving < c.remaining .leaving := by
  obtain ⟨focus, levels⟩ := c
  unfold up? at h
  split at h
  · rename_i parent right levels' hl
    simp only at hl
    subst hl
    simp only [Option.some.injEq] at h
    subst h
    simp only [remaining, pendingAbove]
    omega
  · simp at h

/-- The events of the rest of a walk. -/
def events : Visit → Cursor → List Event
  | .arriving, c =>
    .enter c.focus :: match _h : c.firstChild? with
      | some d => events .arriving d
      | none => events .leaving c
  | .leaving, c =>
    .exit c.focus :: match _h : c.nextSibling? with
      | some d => events .arriving d
      | none => match _h : c.up? with
        | some d => events .leaving d
        | none => []
termination_by v c => c.remaining v
decreasing_by
  · exact remaining_firstChild ‹_›
  · exact remaining_leave c
  · exact remaining_nextSibling ‹_›
  · exact remaining_up ‹_›

/-! The events after each move. -/

theorem events_firstChild {c d : Cursor} (h : c.firstChild? = some d) :
    events .arriving c = .enter c.focus :: events .arriving d := by
  conv => lhs; rw [events]
  split <;> simp_all

theorem events_leaf {c : Cursor} (h : c.firstChild? = none) :
    events .arriving c = .enter c.focus :: events .leaving c := by
  conv => lhs; rw [events]
  split <;> simp_all

theorem events_nextSibling {c d : Cursor} (h : c.nextSibling? = some d) :
    events .leaving c = .exit c.focus :: events .arriving d := by
  conv => lhs; rw [events]
  split <;> simp_all

theorem events_up {c d : Cursor} (h : c.nextSibling? = none) (h' : c.up? = some d) :
    events .leaving c = .exit c.focus :: events .leaving d := by
  conv => lhs; rw [events]
  split
  · simp_all
  · split <;> simp_all

theorem events_end {c : Cursor} (h : c.nextSibling? = none) (h' : c.up? = none) :
    events .leaving c = [.exit c.focus] := by
  rw [events]
  split
  · simp_all
  · split
    · simp_all
    · rfl

end Cursor

/-- The events of a walk from a node, which stays inside what is below it. -/
def Node.events (n : Node) : List Event := Cursor.events .arriving (.set n)

/-! ## Hooks -/

/-- What to do with a state on entering and on leaving a node, by its kind. -/
structure Hooks (σ : Type) where
  enter : String → Option (Node → σ → σ)
  exit : String → Option (Node → σ → σ)

namespace Hooks

variable {σ : Type}

/-- Calls the hook for the node's kind, if the node is named and there is one. -/
def call (table : String → Option (Node → σ → σ)) (n : Node) (s : σ) : σ :=
  if n.named then
    match table n.kind with
    | some hook => hook n s
    | none => s
  else s

def handle (hooks : Hooks σ) (s : σ) : Event → σ
  | .enter n => call hooks.enter n s
  | .exit n => call hooks.exit n s

end Hooks

/-- Walks from a node, handing every event to the hooks. -/
def Node.walk {σ : Type} (n : Node) (hooks : Hooks σ) (s : σ) : σ :=
  n.events.foldl hooks.handle s

end YieldLint
