/-
Which expressions are effect calls.

An expression is looked into step by step: where it is in parentheses, at what is in them;
where it is a conditional, at either branch (`LooksInto`). It is an effect call just when such
steps lead to a call whose callee names an effect (`isEffectCall_iff_exists_path`).

What no step looks at makes no difference, nor does where the expression stands. `Regrown`
says which trees may take the place of one: with other conditions in its conditionals, other
arguments in its calls and anything below other nodes. They are effect calls alike
(`Regrown.isEffectCall_eq`). Any trees at all may be put in at these places
(`regrown_regraft`).
-/
import Mathlib.Logic.Relation
import YieldLint.Proofs.BareCalls
import YieldLint.Proofs.Likeness

namespace YieldLint

namespace Node

variable {n n' c : Node} {aliases : Aliases} {source : Bytes}

/-! ## Looking into an expression -/

/-- Looks from parentheses at what is first in them, comments aside, and from a conditional at
a branch. -/
inductive LooksInto : Node → Node → Prop
  | inside {n c : Node} (parens : n.kind = "parenthesized_expression")
      (first : n.namedChildren.find? (·.kind != "comment") = some c) : LooksInto n c
  | consequence {n c : Node} (conditional : n.kind = "ternary_expression")
      (branch : n.childByField? "consequence" = some c) : LooksInto n c
  | alternative {n c : Node} (conditional : n.kind = "ternary_expression")
      (branch : n.childByField? "alternative" = some c) : LooksInto n c

/-- Is a call whose callee names an effect. -/
def CallsKnown (n : Node) (aliases : Aliases) (source : Bytes) : Prop :=
  n.kind = "call_expression" ∧ ∃ name, aliases.resolve (n.calleeKey? source) = some name

theorem find?_namedChildren_eq_head? (n : Node) :
    n.namedChildren.find? (·.kind != "comment") = n.significantChildren.head? := by
  rw [namedChildren, List.find?_filter, significantChildren, List.head?_filter]
  congr 1
  funext c
  rw [isSignificant, Bool.decide_and, Bool.decide_eq_true, Bool.decide_eq_true]

theorem LooksInto.mem_children (h : n.LooksInto c) : c ∈ n.children := by
  cases h with
  | inside _ first => exact List.mem_of_mem_filter (List.mem_of_find?_eq_some first)
  | consequence _ branch => exact List.mem_of_find?_eq_some branch
  | alternative _ branch => exact List.mem_of_find?_eq_some branch

theorem looksInto_iff_of_parens (h : n.kind = "parenthesized_expression") :
    n.LooksInto c ↔ n.significantChildren.head? = some c := by
  rw [← find?_namedChildren_eq_head?]
  refine ⟨fun hlook => ?_, .inside h⟩
  cases hlook with
  | inside _ first => exact first
  | consequence conditional _ => exact absurd (h.symm.trans conditional) (by decide)
  | alternative conditional _ => exact absurd (h.symm.trans conditional) (by decide)

theorem looksInto_iff_of_conditional (h : n.kind = "ternary_expression") : n.LooksInto c ↔
    n.childByField? "consequence" = some c ∨ n.childByField? "alternative" = some c := by
  refine ⟨fun hlook => ?_, fun hbranch => hbranch.elim (.consequence h) (.alternative h)⟩
  cases hlook with
  | inside parens _ => exact absurd (h.symm.trans parens) (by decide)
  | consequence _ branch => exact .inl branch
  | alternative _ branch => exact .inr branch

/-- No other node is looked into. -/
theorem LooksInto.kind (h : n.LooksInto c) :
    n.kind = "parenthesized_expression" ∨ n.kind = "ternary_expression" := by
  cases h with
  | inside parens _ => exact .inl parens
  | consequence conditional _ => exact .inr conditional
  | alternative conditional _ => exact .inr conditional

/-! ## Effect calls by their kind -/

theorem isEffectCall_of_parens (h : n.kind = "parenthesized_expression") :
    n.isEffectCall aliases source =
      n.significantChildren.head?.any (·.isEffectCall aliases source) := by
  rw [isEffectCall_eq, unwrapParens_of_parenthesized (by simp [isParenthesized, h])]
  cases n.significantChildren.head? with
  | none => rfl
  | some c => exact (c.isEffectCall_eq aliases source).symm

theorem isEffectCall_of_call (h : n.kind = "call_expression") :
    n.isEffectCall aliases source = (aliases.resolve (n.calleeKey? source)).isSome := by
  rw [isEffectCall_eq, unwrapParens_of_not (by simp [isParenthesized, h]), Option.any_some, h]
  rfl

theorem isEffectCall_of_conditional (h : n.kind = "ternary_expression") :
    n.isEffectCall aliases source =
      ((n.childByField? "consequence").any (·.isEffectCall aliases source) ||
        (n.childByField? "alternative").any (·.isEffectCall aliases source)) := by
  rw [isEffectCall_eq, unwrapParens_of_not (by simp [isParenthesized, h]), Option.any_some, h]
  rfl

theorem isEffectCall_of_other (hparens : n.kind ≠ "parenthesized_expression")
    (hcall : n.kind ≠ "call_expression") (hconditional : n.kind ≠ "ternary_expression") :
    n.isEffectCall aliases source = false := by
  rw [isEffectCall_eq, unwrapParens_of_not (by simp [isParenthesized, hparens]), Option.any_some,
    Shape.ofKind, if_neg hcall, if_neg hconditional]

/-- An effect call calls an effect, or one is found by looking into it. -/
theorem isEffectCall_iff : n.isEffectCall aliases source = true ↔
    n.CallsKnown aliases source ∨ ∃ c, n.LooksInto c ∧ c.isEffectCall aliases source = true := by
  by_cases hparens : n.kind = "parenthesized_expression"
  · simp [isEffectCall_of_parens hparens, looksInto_iff_of_parens hparens, CallsKnown, hparens,
      Option.any_eq_true]
  by_cases hconditional : n.kind = "ternary_expression"
  · simp [isEffectCall_of_conditional hconditional, looksInto_iff_of_conditional hconditional,
      CallsKnown, hconditional, Option.any_eq_true, or_and_right, exists_or]
  -- Nothing else is looked into, so it has to be the call itself.
  have hlook (c : Node) : ¬n.LooksInto c := fun h => h.kind.elim hparens hconditional
  by_cases hcall : n.kind = "call_expression"
  · simp [isEffectCall_of_call hcall, hlook, CallsKnown, hcall, Option.isSome_iff_exists]
  · simp [isEffectCall_of_other hparens hcall hconditional, hlook, CallsKnown, hcall]

/-- Effect calls are those from which one comes to a call whose callee names an effect. -/
theorem isEffectCall_iff_exists_path : n.isEffectCall aliases source = true ↔
    ∃ e, Relation.ReflTransGen LooksInto n e ∧ e.CallsKnown aliases source := by
  constructor
  · induction n using children_induction with
    | step n below =>
      intro h
      rcases isEffectCall_iff.1 h with hcalls | ⟨c, hlook, hc⟩
      · exact ⟨n, .refl, hcalls⟩
      · obtain ⟨e, hpath, hcalls⟩ := below c hlook.mem_children hc
        exact ⟨e, .head hlook hpath, hcalls⟩
  · rintro ⟨e, hpath, hcalls⟩
    induction hpath using Relation.ReflTransGen.head_induction_on with
    | refl => exact isEffectCall_iff.2 (.inl hcalls)
    | head hlook _ ih => exact isEffectCall_iff.2 (.inr ⟨_, hlook, ih⟩)

/-! ## Nodes with the same below them -/

theorem forall₂_children {r : Node → Tree → Prop}
    (h : List.Forall₂ r n.children n'.tree.children) : List.Forall₂
      (fun c c' => r c c'.tree ∧ (c, c'.tree) ∈ n.children.zip n'.tree.children)
      n.children n'.children := by
  have hzip := forall₂_zip h
  rw [← map_tree_children, List.forall₂_map_right_iff] at hzip
  rwa [map_tree_children] at hzip

theorem isSignificant_of_label (h : n'.label = n.label) : n'.isSignificant = n.isSignificant := by
  rw [isSignificant, isSignificant, named, kind, h]
  rfl

/-- The same is below two nodes. -/
def SameTree (n n' : Node) : Prop := n'.tree = n.tree

namespace SameTree

theorem label (h : n.SameTree n') : n'.label = n.label := by
  rw [Node.label, h]
  rfl

theorem kind (h : n.SameTree n') : n'.kind = n.kind := by
  rw [Node.kind, h.label]
  rfl

theorem text (h : n.SameTree n') : n'.text source = n.text source := by
  rw [Node.text, Node.text, span, h.label]
  rfl

theorem children (h : n.SameTree n') : List.Forall₂ SameTree n.children n'.children := by
  have hrow : List.Forall₂ (fun c t => t = c.tree) n.children n'.tree.children := by
    rw [h, ← map_tree_children, List.forall₂_map_right_iff]
    exact List.forall₂_same.2 fun _ _ => rfl
  exact (forall₂_children hrow).imp fun _ _ hc => hc.1

theorem childByField? (h : n.SameTree n') (field : String) :
    Option.Rel SameTree (n.childByField? field) (n'.childByField? field) := by
  refine rel_find? h.children fun c c' hc => ?_
  rw [Node.field, hc.label]
  rfl

theorem significantChildren (h : n.SameTree n') :
    List.Forall₂ SameTree n.significantChildren n'.significantChildren :=
  rel_filter h.children fun _ _ hc => isSignificant_of_label hc.label

theorem unwrapParens (h : n.SameTree n') : Option.Rel SameTree n.unwrapParens n'.unwrapParens := by
  induction n' using children_induction generalizing n with
  | step n' below =>
    have hparens : n'.isParenthesized = n.isParenthesized := by
      rw [isParenthesized, h.kind]
      rfl
    cases hp : n.isParenthesized with
    | false =>
      rw [unwrapParens_of_not hp, unwrapParens_of_not (hparens.trans hp)]
      exact .some h
    | true =>
      rw [unwrapParens_of_parenthesized hp, unwrapParens_of_parenthesized (hparens.trans hp)]
      exact rel_bind (rel_head? h.significantChildren) fun c c' hc' hc =>
        below c' (List.mem_of_mem_filter (List.mem_of_head? hc')) hc

end SameTree

/-- A callee's name is read off what is below it. -/
theorem calleeKey?_eq (h : Option.Rel SameTree (n.childByField? "function")
    (n'.childByField? "function")) : n'.calleeKey? source = n.calleeKey? source := by
  rw [calleeKey?, calleeKey?]
  refine bind_eq_of_rel h fun f f' hf => bind_eq_of_rel hf.unwrapParens fun c c' hc => ?_
  rw [hc.kind, hc.text]
  split
  · rfl
  split
  · refine bind_eq_of_rel (hc.childByField? "object") fun o o' ho => ?_
    refine bind_eq_of_rel ho.unwrapParens fun o o' ho => ?_
    refine bind_eq_of_rel (hc.childByField? "property") fun m m' hm => ?_
    rw [ho.kind, ho.text, hm.text]
  · rfl

/-! ## What may be below an expression -/

/-- What may take the place of an expression and be an effect call just when it is one. The
children of a conditional that are no branches, and those of a call other than its callee,
are replaced by any trees in the same fields, and the row below any other expression by any
row; what is looked at in parentheses and in branches is replaced in this way in turn. -/
inductive Regrown : Node → Tree → Prop
  | parens {n : Node} {row : List Tree} (kind : n.kind = "parenthesized_expression")
      (beside : List.Forall₂ (fun c t => n.LooksInto c ∨ t = c.tree) n.children row)
      (inside : ∀ c t, (c, t) ∈ n.children.zip row → n.LooksInto c → Regrown c t) :
      Regrown n (.node n.label row)
  | conditional {n : Node} {row : List Tree} (kind : n.kind = "ternary_expression")
      (fields : List.Forall₂ (fun c t => t.label.field = c.field) n.children row)
      (branches : ∀ c t, (c, t) ∈ n.children.zip row → n.LooksInto c → Regrown c t) :
      Regrown n (.node n.label row)
  | call {n : Node} {row : List Tree} (kind : n.kind = "call_expression")
      (fields : List.Forall₂ (fun c t => t.label.field = c.field) n.children row)
      (callee : ∀ c t, (c, t) ∈ n.children.zip row → n.childByField? "function" = some c →
        t = c.tree) :
      Regrown n (.node n.label row)
  | other {n : Node} {row : List Tree} (parens : n.kind ≠ "parenthesized_expression")
      (call : n.kind ≠ "call_expression") (conditional : n.kind ≠ "ternary_expression") :
      Regrown n (.node n.label row)

namespace Regrown

theorem label_eq {t : Tree} (h : n.Regrown t) : t.label = n.label := by
  cases h <;> rfl

section Row

variable {row : List Tree} (htree : n'.tree = .node n.label row)

include htree

theorem kind_eq : n'.kind = n.kind := by
  rw [kind, Node.label, htree]
  rfl

theorem children_eq : n'.tree.children = row := by
  rw [htree]
  rfl

/-- Children in the same fields are found alike. -/
theorem rel_childByField?
    (fields : List.Forall₂ (fun c t => t.label.field = c.field) n.children row) (field : String) :
    Option.Rel (fun c c' => (c, c'.tree) ∈ n.children.zip row) (n.childByField? field)
      (n'.childByField? field) := by
  obtain rfl := children_eq htree
  refine rel_imp (rel_find? (forall₂_children fields) fun c c' hc => ?_) fun _ _ _ hc => hc.2
  rw [← hc.1]
  rfl

/-- In parentheses, what is looked at has the place of what was. -/
theorem rel_head?_significantChildren
    (beside : List.Forall₂ (fun c t => n.LooksInto c ∨ t = c.tree) n.children row)
    (inside : ∀ c t, (c, t) ∈ n.children.zip row → n.LooksInto c → c.Regrown t) :
    Option.Rel (fun c c' => (c, c'.tree) ∈ n.children.zip row) n.significantChildren.head?
      n'.significantChildren.head? := by
  obtain rfl := children_eq htree
  have hrow := rel_filter (forall₂_children beside) fun c c' hc => by
    rcases hc.1 with hlook | hsame
    · exact isSignificant_of_label (inside c c'.tree hc.2 hlook).label_eq
    · exact isSignificant_of_label (SameTree.label hsame)
  exact rel_head? (hrow.imp fun _ _ hc => hc.2)

end Row

/-- Effect calls are told by what is looked at. -/
theorem isEffectCall_eq {t : Tree} (h : n.Regrown t) : ∀ {n' : Node}, n'.tree = t →
    n'.isEffectCall aliases source = n.isEffectCall aliases source := by
  -- On how the tree has grown; the new node is any with this tree, wherever it stands.
  induction h with
  | @parens n row kind beside inside ih =>
    intro n' htree
    rw [isEffectCall_of_parens kind, isEffectCall_of_parens ((kind_eq htree).trans kind)]
    have hfirst := rel_head?_significantChildren htree beside inside
    exact any_eq_of_rel hfirst fun c hc c' hmem =>
      ih c c'.tree hmem ((looksInto_iff_of_parens kind).2 hc) rfl
  | @conditional n row kind fields branches ih =>
    intro n' htree
    rw [isEffectCall_of_conditional kind, isEffectCall_of_conditional ((kind_eq htree).trans kind)]
    have hconsequence := any_eq_of_rel (rel_childByField? htree fields "consequence")
      fun c hc c' hmem => ih c c'.tree hmem (.consequence kind hc) rfl
    have halternative := any_eq_of_rel (rel_childByField? htree fields "alternative")
      fun c hc c' hmem => ih c c'.tree hmem (.alternative kind hc) rfl
    rw [hconsequence, halternative]
  | @call n row kind fields callee =>
    intro n' htree
    rw [isEffectCall_of_call kind, isEffectCall_of_call ((kind_eq htree).trans kind)]
    have hcallee : Option.Rel SameTree (n.childByField? "function") (n'.childByField? "function") :=
      rel_imp (rel_childByField? htree fields "function") fun c hc c' hmem =>
        callee c c'.tree hmem hc
    rw [calleeKey?_eq hcallee]
  | @other n row parens call conditional =>
    intro n' htree
    have hkind := kind_eq htree
    rw [isEffectCall_of_other parens call conditional, isEffectCall_of_other]
    all_goals rwa [hkind]

end Regrown

/-- **Effect calls are told by paths.** An expression is an effect call just when steps into
parentheses, at what is first in them, and into branches of conditionals, at either of them,
lead to a call whose callee names an effect. So it is one, or is none, whatever stands elsewhere
in these conditionals and in that call, in the same fields. -/
theorem isEffectCall_iff_exists_path_and_regrown (n : Node) (aliases : Aliases)
    (source : Bytes) :
    (n.isEffectCall aliases source = true ↔
      ∃ e, Relation.ReflTransGen LooksInto n e ∧ e.kind = "call_expression" ∧
        ∃ name, aliases.resolve (e.calleeKey? source) = some name) ∧
      ∀ n' : Node, n.Regrown n'.tree →
        n'.isEffectCall aliases source = n.isEffectCall aliases source :=
  ⟨isEffectCall_iff_exists_path, fun _ h => h.isEffectCall_eq rfl⟩

/-! ## Trees put in at all other places -/

instance (n c : Node) : Decidable (n.LooksInto c) :=
  decidable_of_iff (n.kind = "parenthesized_expression" ∧ n.significantChildren.head? = some c ∨
      n.kind = "ternary_expression" ∧ (n.childByField? "consequence" = some c ∨
        n.childByField? "alternative" = some c)) <| by
    constructor
    · rintro (⟨hkind, hfirst⟩ | ⟨hkind, hbranch⟩)
      · exact (looksInto_iff_of_parens hkind).2 hfirst
      · exact (looksInto_iff_of_conditional hkind).2 hbranch
    · intro h
      refine h.kind.imp (fun hkind => ⟨hkind, ?_⟩) fun hkind => ⟨hkind, ?_⟩
      · exact (looksInto_iff_of_parens hkind).1 h
      · exact (looksInto_iff_of_conditional hkind).1 h

/-- Trees stand in for the children one by one. -/
theorem regrown_map (stand : Node → Tree)
    (field : ∀ c ∈ n.children, (stand c).label.field = c.field)
    (looked : ∀ c ∈ n.children, n.LooksInto c → c.Regrown (stand c))
    (kept : ∀ c ∈ n.children, ¬n.LooksInto c →
      n.kind = "parenthesized_expression" ∨ n.childByField? "function" = some c →
        stand c = c.tree) :
    n.Regrown (.node n.label (n.children.map stand)) := by
  have hrow {r : Node → Tree → Prop} (h : ∀ c ∈ n.children, r c (stand c)) :
      List.Forall₂ r n.children (n.children.map stand) := by
    rw [List.forall₂_map_right_iff]
    exact List.forall₂_same.2 h
  have hzip {c : Node} {t : Tree} (h : (c, t) ∈ n.children.zip (n.children.map stand)) :
      c ∈ n.children ∧ t = stand c :=
    (List.forall₂_iff_zip.1 (hrow (r := fun c t => c ∈ n.children ∧ t = stand c)
      fun _ hc => ⟨hc, rfl⟩)).2 h
  have hlook : ∀ c t, (c, t) ∈ n.children.zip (n.children.map stand) → n.LooksInto c →
      c.Regrown t := by
    intro c t hmem hlook
    obtain ⟨hc, rfl⟩ := hzip hmem
    exact looked c hc hlook
  by_cases hparens : n.kind = "parenthesized_expression"
  · refine .parens hparens (hrow fun c hc => ?_) hlook
    by_cases h : n.LooksInto c
    · exact .inl h
    · exact .inr (kept c hc h (.inl hparens))
  by_cases hconditional : n.kind = "ternary_expression"
  · exact .conditional hconditional (hrow field) hlook
  by_cases hcall : n.kind = "call_expression"
  · refine .call hcall (hrow field) fun c t hmem hcallee => ?_
    obtain ⟨hc, rfl⟩ := hzip hmem
    exact kept c hc (fun h => h.kind.elim hparens hconditional) (.inr hcallee)
  · exact .other hparens hcall hconditional

theorem regrown_tree (n : Node) : n.Regrown n.tree := by
  induction n using children_induction with
  | step n below =>
    have htree : n.tree = .node n.label (n.children.map (·.tree)) := by
      rw [map_tree_children, label]
      cases n.tree
      rfl
    rw [htree]
    exact regrown_map (·.tree) (fun _ _ => rfl) (fun c hc _ => below c hc) fun _ _ _ _ => rfl

/-- The tree below an expression where, for some steps of looking into it, all that is neither
looked at nor a callee has given way to other trees in the same fields. -/
def regraft (graft : Node → Tree) : Nat → Node → Tree
  | 0, n => n.tree
  | steps + 1, n => .node n.label <| n.children.map fun c =>
      if n.LooksInto c then c.regraft graft steps
      else if n.kind = "parenthesized_expression" ∨ n.childByField? "function" = some c then c.tree
      else .node { (graft c).label with field := c.field } (graft c).children

theorem regrown_regraft (graft : Node → Tree) (steps : Nat) (n : Node) :
    n.Regrown (n.regraft graft steps) := by
  induction steps generalizing n with
  | zero => exact regrown_tree n
  | succ steps ih =>
    refine regrown_map _ (fun c _ => ?_) (fun c _ hlook => ?_) fun c _ hlook hkept => ?_
    · dsimp only
      split
      · rw [(ih c).label_eq]
        rfl
      · split <;> rfl
    · rw [if_pos hlook]
      exact ih c
    · rw [if_neg hlook, if_pos hkept]

end Node

open NestedSaga in
/-- Of `(a ? b : (call(x)))`, with a comment in it, the last branch calls an effect; with such
calls in place of the condition, the marks and the arguments it does still. -/
theorem isEffectCall_of_branch :
    let source := Utf8.encode "(a?b:(call(x)))"
    let aliases : Aliases := Table.empty.put "call" (some "call")
    let inner := piece "parenthesized_expression" true (some "alternative") 5 14
      [piece "(" false none 5 6 [], effect 6 13 [], piece ")" false none 13 14 []]
    let n := Node.ofTree <| piece "parenthesized_expression" true none 0 15
      [piece "comment" true none 0 0 [],
        piece "ternary_expression" true none 1 14
          [piece "identifier" true (some "condition") 1 2 [], piece "?" false none 2 3 [],
            piece "identifier" true (some "consequence") 3 4 [], inner]]
    let n' := Node.ofTree (n.regraft (fun _ => effect 6 13 []) 5)
    n.Regrown n'.tree ∧ n.tree.size = 12 ∧ n'.tree.size = 18 ∧
      n.isEffectCall aliases source = true ∧ n'.isEffectCall aliases source = true := by
  intro source aliases inner n n'
  have hregrown : n.Regrown n'.tree := n.regrown_regraft _ _
  have hcalls : n.isEffectCall aliases source = true := by decide +kernel
  refine ⟨hregrown, by decide +kernel, by decide +kernel, hcalls, ?_⟩
  rw [(n.isEffectCall_iff_exists_path_and_regrown aliases source).2 n' hregrown, hcalls]

end YieldLint
