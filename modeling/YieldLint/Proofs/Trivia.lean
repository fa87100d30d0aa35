/-
Comments and tokens make no difference to what the rule reports.

`Tree.Padded` says that a tree is another one with trivia put in among the children of its
nodes, as many as one likes: comments, and nodes without a name that are no stars, with
nothing below them and in no field. `Node.Padded` says it of two nodes and of the nodes
above them. The rule is told the same of both (`likeness_padded`): what it asks a node about
other nodes it asks past the trivia. So whatever node a check starts from, it reports the same
(`check_eq_of_padded`).
-/
import YieldLint.Proofs.BareCalls
import YieldLint.Proofs.LikeReports

namespace YieldLint

/-! ## Trees with trivia put in -/

namespace Tree

/-- A comment, or a token other than a star: nothing is below it, and it is in no field. -/
structure IsTrivia (t : Tree) : Prop where
  childless : t.children = []
  unheld : t.label.field = none
  plain : t.label.named = true ∧ t.label.kind = "comment" ∨
    t.label.named = false ∧ t.label.kind ≠ "*"

/-- The second tree is the first with trivia put in among the children of its nodes. -/
inductive Padded : Tree → Tree → Prop
  | node {label : Label} {ts ts' : List Tree} (row : Interspersed Padded IsTrivia ts ts') :
      Padded (.node label ts) (.node label ts')

namespace Padded

variable {t t' : Tree}

theorem label (h : Padded t t') : t'.label = t.label := by
  cases h
  rfl

theorem children (h : Padded t t') : Interspersed Padded IsTrivia t.children t'.children := by
  cases h with
  | node row => exact row

theorem refl (t : Tree) : Padded t t := by
  obtain ⟨label, ts⟩ := t
  refine .node ?_
  -- the row is taken by itself, as the induction is on the size of the tree
  have each : ∀ us : List Tree, (∀ u ∈ us, Padded u u) → Interspersed Padded IsTrivia us us := by
    intro us
    induction us with
    | nil => exact fun _ => .nil
    | cons u us ih =>
      exact fun h => .keep (h u List.mem_cons_self) (ih fun v hv => h v (List.mem_cons_of_mem u hv))
  exact each ts fun u _ => refl u
termination_by t.size
decreasing_by
  rename_i hu
  have hle := size_le_sizes hu
  simp only [size]
  omega

end Padded

end Tree

/-- Trees in their places, the second with trivia put in. -/
def Placed.Padded (p p' : Placed) : Prop := p.tree.Padded p'.tree

theorem Placed.interspersed_siblings {ts ts' : List Tree}
    (h : Interspersed Tree.Padded Tree.IsTrivia ts ts') : ∀ i i', Interspersed Placed.Padded
      (fun p => p.tree.IsTrivia) (siblings i ts) (siblings i' ts') := by
  induction h with
  | nil => exact fun _ _ => .nil
  | keep related _ ih => exact fun i i' => .keep related (ih _ _)
  | insert new _ ih => exact fun i i' => .insert new (ih i _)

namespace Node

/-- A node, and what has become of it in a tree with trivia put in: they are put in below it,
and below the nodes above it. -/
structure Padded (n n' : Node) : Prop where
  tree : n.tree.Padded n'.tree
  above : List.Forall₂ Placed.Padded n.above n'.above

/-- A node that is put in. -/
def IsTrivia (n : Node) : Prop := n.tree.IsTrivia

namespace IsTrivia

variable {n : Node}

theorem kind_ne_star (h : n.IsTrivia) : n.kind ≠ "*" := by
  rcases h.plain with ⟨-, hkind⟩ | ⟨-, hkind⟩
  · rw [Node.kind, Node.label, hkind]
    decide
  · exact hkind

theorem kind_of_named (h : n.IsTrivia) (hnamed : n.named = true) : n.kind = "comment" := by
  rcases h.plain with ⟨-, hkind⟩ | ⟨hnot, -⟩
  · exact hkind
  · cases hnamed.symm.trans hnot

end IsTrivia

namespace Padded

variable {n n' : Node}

theorem label (h : Padded n n') : n'.label = n.label := h.tree.label

theorem children (h : Padded n n') : Interspersed Padded IsTrivia n.children n'.children :=
  (Placed.interspersed_siblings h.tree.children _ _).map
    (fun _ _ related => ⟨related, .cons h.tree h.above⟩) fun _ => id

theorem kindsAbove (h : Padded n n') : n'.kindsAbove = n.kindsAbove :=
  map_eq_of_forall₂ h.above fun p p' related => by rw [related.label]

end Padded

theorem likeness_padded : Likeness Padded Padded IsTrivia fun _ => false where
  kind h := by rw [kind, h.label]; rfl
  named h := by rw [named, h.label]; rfl
  span h := by rw [span, h.label]; rfl
  above h := by
    rw [h.kindsAbove]
    exact .of_forall₂ (List.forall₂_refl _)
  children h := h.children.imp (fun c c' hc => ⟨hc, by rw [field, hc.label]; rfl⟩) fun b hb =>
    { isNew := hb
      filler := .of_plain hb.childless hb.kind_of_named
      unheld := fun _ => hb.unheld
      plain := fun _ => hb.kind_ne_star }
  place h := .inl h
  idle h hnamed := List.mem_pair.2 (.inl (h.kind_of_named hnamed))
  yields _ hstarred := nomatch hstarred
  star _ hstarred := nomatch hstarred

/-- The nodes of a tree with trivia put in are those of the tree, in the same order, and the
trivia in between. -/
theorem Padded.preorder {n n' : Node} (h : n.Padded n') :
    Interspersed Padded IsTrivia n.preorder n'.preorder :=
  likeness_padded.preorder h

end Node

namespace Rule

theorem check_of_padded {rule : Rule} {source : Bytes} {path : String} {n n' : Node}
    (h : n.Padded n') : rule.check source path n' = rule.check source path n := by
  have hcheck := Node.likeness_padded.check rule source path h
  rwa [Bool.not_false, List.filter_true] at hcheck

/-- **Comments and tokens make no difference.** Put comments, and nodes without a name that
are no stars, among the children of any nodes of a tree, with nothing below them and in no
field. Its nodes are then those of the tree, in the same order, and what was put in among
them; and whatever node a check starts from, it reports what it reports in the tree without
them. -/
theorem check_eq_of_padded {t t' : Tree} (h : t.Padded t') (rule : Rule) (source : Bytes)
    (path : String) :
    Interspersed Node.Padded Node.IsTrivia (Node.ofTree t).preorder (Node.ofTree t').preorder ∧
      ∀ n n', n.Padded n' → rule.check source path n' = rule.check source path n :=
  have htop : (Node.ofTree t).Padded (Node.ofTree t') := ⟨h, .nil⟩
  ⟨htop.preorder, fun _ _ => check_of_padded⟩

end Rule

namespace NestedSaga

mutual

/-- A tree with a comment before the children of each node, and a comma behind each child. -/
def sprinkle : Tree → Tree
  | .node label ts => .node label (piece "comment" true none 0 0 [] :: sprinkles ts)

def sprinkles : List Tree → List Tree
  | [] => []
  | t :: ts => sprinkle t :: piece "," false none 0 0 [] :: sprinkles ts

end

mutual

theorem padded_sprinkle : ∀ t : Tree, t.Padded (sprinkle t)
  | .node _ ts => .node (.insert ⟨rfl, rfl, .inl ⟨rfl, rfl⟩⟩ (interspersed_sprinkles ts))

theorem interspersed_sprinkles : ∀ ts : List Tree,
    Interspersed Tree.Padded Tree.IsTrivia ts (sprinkles ts)
  | [] => .nil
  | t :: ts => .keep (padded_sprinkle t)
      (.insert ⟨rfl, rfl, .inr ⟨rfl, by decide⟩⟩ (interspersed_sprinkles ts))

end

end NestedSaga

open NestedSaga in
/-- Both yields of the saga are reported alike with comments and commas all over the tree,
which make it more than twice as large. -/
theorem check_nestedSaga_sprinkled :
    let t := tree true false false
    let reported := ({} : Rule).check (source false false) "a.js" (.ofTree t)
    t.Padded (sprinkle t) ∧ 2 * t.size < (sprinkle t).size ∧ reported.length = 2 ∧
      ({} : Rule).check (source false false) "a.js" (.ofTree (sprinkle t)) = reported := by
  intro t reported
  have hpadded : t.Padded (sprinkle t) := padded_sprinkle t
  refine ⟨hpadded, by decide +kernel, by decide +kernel, ?_⟩
  obtain ⟨-, hsame⟩ := Rule.check_eq_of_padded hpadded {} (source false false) "a.js"
  exact hsame _ _ ⟨hpadded, .nil⟩

end YieldLint
