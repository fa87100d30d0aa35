/-
Syntax trees of JavaScript, and the nodes of one tree.

A `Tree` is what a parser gives: each node has a kind, a range of bytes and
points, and the field under which its parent holds it. A `Node` is a tree met
on the way down from a root: it knows its place in preorder and the trees
above it, so that `parent?` and `children` are inverse steps
(`parent?_of_mem_children`).

`preorder` lists a node and everything below it, at consecutive places
(`map_index_preorder`). Every child is smaller than its parent
(`size_lt_of_mem_children`), which is what recursion on nodes uses.
-/
namespace YieldLint

/-- A place in a text: its line and its byte in the line, both from zero. -/
structure Point where
  row : Nat
  column : Nat
  deriving DecidableEq, Repr, Inhabited

/-- The bytes that a node covers, and the points of the first and past the last. -/
structure Span where
  startByte : Nat
  endByte : Nat
  start : Point
  stop : Point
  deriving DecidableEq, Repr, Inhabited

/-- All that is known of one node but its children: its kind, whether the grammar
gives it a name (keywords and punctuation have none), the field of its parent
that holds it, and its span. -/
structure Label where
  kind : String
  named : Bool
  field : Option String
  span : Span
  deriving DecidableEq, Repr, Inhabited

inductive Tree where
  | node (label : Label) (children : List Tree)
  deriving Inhabited

namespace Tree

def label : Tree → Label
  | node l _ => l

def children : Tree → List Tree
  | node _ ts => ts

mutual

/-- Trees are compared by their labels and rows. -/
def decEq : (t u : Tree) → Decidable (t = u)
  | .node l ts, .node m us =>
    if hlabel : l = m then
      match decEqRow ts us with
      | .isTrue h => .isTrue (by rw [hlabel, h])
      | .isFalse h => .isFalse fun heq => h (by cases heq; rfl)
    else .isFalse fun heq => hlabel (by cases heq; rfl)

def decEqRow : (ts us : List Tree) → Decidable (ts = us)
  | [], [] => .isTrue rfl
  | [], _ :: _ => .isFalse nofun
  | _ :: _, [] => .isFalse nofun
  | t :: ts, u :: us =>
    match decEq t u with
    | .isTrue h =>
      match decEqRow ts us with
      | .isTrue hs => .isTrue (by rw [h, hs])
      | .isFalse hs => .isFalse fun heq => hs (by cases heq; rfl)
    | .isFalse h => .isFalse fun heq => h (by cases heq; rfl)

end

instance : DecidableEq Tree := decEq

mutual

/-- The number of nodes of a tree. -/
def size : Tree → Nat
  | node _ ts => sizes ts + 1

/-- The number of nodes of a row of trees. -/
def sizes : List Tree → Nat
  | [] => 0
  | t :: ts => t.size + sizes ts

end

/-- Reads a tree off its labels in preorder, each with its number of children:
from the last label to the first, each takes its children off the trees read so
far. -/
def ofPreorder? (rows : List (Label × Nat)) : Option Tree :=
  (rows.foldr (fun r done => node r.1 (done.take r.2) :: done.drop r.2) []).head?

theorem size_eq (t : Tree) : t.size = sizes t.children + 1 := by
  cases t; rfl

theorem size_pos (t : Tree) : 0 < t.size := by
  rw [size_eq]; omega

theorem size_le_sizes {t : Tree} {ts : List Tree} (h : t ∈ ts) : t.size ≤ sizes ts := by
  induction ts with
  | nil => simp at h
  | cons u ts ih =>
    rw [sizes]
    rcases List.mem_cons.1 h with rfl | h
    · omega
    · exact Nat.le_trans (ih h) (by omega)

end Tree

/-- A tree and its place in the preorder of the tree that it belongs to. -/
structure Placed where
  tree : Tree
  index : Nat
  deriving DecidableEq, Inhabited

namespace Placed

/-- Sibling trees in preorder, the first of them at the given place. -/
def siblings (index : Nat) : List Tree → List Placed
  | [] => []
  | t :: ts => ⟨t, index⟩ :: siblings (index + t.size) ts

theorem map_tree_siblings (ts : List Tree) (i : Nat) : (siblings i ts).map (·.tree) = ts := by
  induction ts generalizing i with
  | nil => rfl
  | cons t ts ih => simp [siblings, ih]

end Placed

/-- A node of a tree: the tree below it, its place, and the trees above it, its
parent first. -/
structure Node extends Placed where
  above : List Placed
  deriving DecidableEq, Inhabited

namespace Node

/-- The root of a tree. -/
def ofTree (t : Tree) : Node := { tree := t, index := 0, above := [] }

def label (n : Node) : Label := n.tree.label
def kind (n : Node) : String := n.label.kind
def named (n : Node) : Bool := n.label.named
def field (n : Node) : Option String := n.label.field
def span (n : Node) : Span := n.label.span

/-- The node above, if there is one. -/
def parent? (n : Node) : Option Node :=
  match n.above with
  | [] => none
  | p :: rest => some { toPlaced := p, above := rest }

/-- The nodes directly below, in order. -/
def children (n : Node) : List Node :=
  (Placed.siblings (n.index + 1) n.tree.children).map fun p =>
    { toPlaced := p, above := n.toPlaced :: n.above }

def namedChildren (n : Node) : List Node := n.children.filter (·.named)

/-- The first child that the node holds under a field. -/
def childByField? (n : Node) (field : String) : Option Node :=
  n.children.find? (·.field == some field)

theorem map_tree_children (n : Node) : n.children.map (·.tree) = n.tree.children := by
  rw [children, List.map_map]
  exact Placed.map_tree_siblings _ _

theorem children_of_childless {n : Node} (h : n.tree.children = []) : n.children = [] := by
  rw [children, h]
  rfl

theorem parent?_of_mem_children {c n : Node} (h : c ∈ n.children) : c.parent? = some n := by
  obtain ⟨p, _, rfl⟩ := List.mem_map.1 h
  rfl

theorem size_lt_of_mem_children {c n : Node} (h : c ∈ n.children) :
    c.tree.size < n.tree.size := by
  have hc : c.tree ∈ n.tree.children := by
    rw [← map_tree_children]; exact List.mem_map_of_mem h
  rw [n.tree.size_eq]
  exact Nat.lt_succ_of_le (Tree.size_le_sizes hc)

theorem size_lt_of_childByField? {c n : Node} {f : String} (h : n.childByField? f = some c) :
    c.tree.size < n.tree.size :=
  size_lt_of_mem_children (List.mem_of_find?_eq_some h)

/-- The node and everything below it, each before what is below it, siblings in
order. -/
def preorder (n : Node) : List Node :=
  n :: n.children.attach.flatMap fun c => c.1.preorder
termination_by n.tree.size
decreasing_by exact size_lt_of_mem_children c.2

theorem preorder_eq (n : Node) : n.preorder = n :: n.children.flatMap preorder := by
  rw [preorder]
  congr 1
  exact List.flatMap_subtype (fun _ _ => rfl) |>.trans (by rw [List.unattach_attach])

/-- Consecutive siblings take up consecutive places. -/
theorem range'_siblings (ts : List Tree) (i : Nat) :
    (Placed.siblings i ts).flatMap (fun p => List.range' p.index p.tree.size) =
      List.range' i (Tree.sizes ts) := by
  induction ts generalizing i with
  | nil => rfl
  | cons t ts ih =>
    rw [Placed.siblings, List.flatMap_cons, ih, Tree.sizes, List.range'_append_1]

/-- Preorder runs through consecutive places. -/
theorem map_index_preorder (n : Node) :
    n.preorder.map (·.index) = List.range' n.index n.tree.size := by
  have below : ∀ c ∈ n.children,
      c.preorder.map (·.index) = List.range' c.index c.tree.size :=
    fun c _ => map_index_preorder c
  rw [preorder_eq, List.map_cons, List.map_flatMap, List.flatMap_def,
    List.map_congr_left below, ← List.flatMap_def, children, List.flatMap_map,
    range'_siblings, n.tree.size_eq, List.range'_succ]
termination_by n.tree.size
decreasing_by exact size_lt_of_mem_children ‹_›

theorem self_mem_preorder (n : Node) : n ∈ n.preorder := by
  rw [preorder_eq]; exact List.mem_cons_self

end Node

end YieldLint
