/-
What an import statement adds to a report.

An import may give a name another meaning, and so may each import behind it, but none takes a
meaning away: whatever else the imports of a document bind, a table that knows more stays one
that knows more (`Aliases.Grown`). So when an import statement is put in among the children of
the root, the walk does the same before it; behind it, it finds what it found, and maybe more
(`Rule.Pass.Gained`), and if the import is of no tracked module, it finds the same.
-/
import YieldLint.Proofs.EffectCalls
import YieldLint.Proofs.LikeReports
import YieldLint.Proofs.Registrations

namespace YieldLint

/-! ## Tables that have grown -/

namespace Node

variable {n : Node} {source : Bytes}

/-- Named imports are written with the name that they import. -/
theorem isSome_of_named_mem_clauseBindings {localName : String} {imported : Option String}
    (h : .named localName imported ∈ n.clauseBindings source) : imported.isSome = true := by
  rw [clauseBindings] at h
  split at h
  · simp at h
  split at h
  · split at h <;> simp at h
  split at h
  · obtain ⟨spec, -, hspec⟩ := List.mem_filterMap.1 h
    obtain ⟨m, -, hbinding⟩ := Option.bind_eq_some_iff.1 hspec
    simp only [pure, Option.some.injEq, Binding.named.injEq] at hbinding
    rw [← hbinding.2]
    rfl
  · cases h

theorem isSome_of_writes {c : Catalogue} {b : Binding} (hb : b ∈ n.importBindings source)
    {k : String} {v : Option String} (h : b.Writes c k v) : v.isSome = true := by
  cases b with
  | named localName imported =>
    obtain ⟨-, rfl⟩ := h
    rw [importBindings] at hb
    split at hb
    · obtain ⟨part, -, hpart⟩ := List.mem_flatMap.1 hb
      exact isSome_of_named_mem_clauseBindings hpart
    · cases hb
  | defaultExport localName | wholeModule localName =>
    obtain ⟨name, -, -, rfl⟩ := h
    rfl

end Node

namespace Aliases

variable {c : Catalogue} {a a' : Aliases} {source : Bytes} {n : Node} {k : String}

/-- What means an effect in the first table means one in the second, if maybe another. -/
def Grown (a a' : Aliases) : Prop :=
  ∀ key, (a.resolve key).isSome = true → (a'.resolve key).isSome = true

/-- After an import, a name means something if the import has written it, or if it did before. -/
theorem isSome_resolve_observeImport_iff :
    ((a.observeImport c n source).1.resolve (some k)).isSome = true ↔
      Written c ((Registration.imports (n.importSource? source)
        (n.importBindings source)).bindings c) k ∨ (a.resolve (some k)).isSome = true := by
  have hfold := Registration.apply_eq c a
    (.imports (n.importSource? source) (n.importBindings source))
  have hmem : ∀ b ∈ (Registration.imports (n.importSource? source)
      (n.importBindings source)).bindings c, b ∈ n.importBindings source := by
    intro b hb
    rw [Registration.bindings] at hb
    split at hb
    · exact hb
    · cases hb
  rw [observeImport, ← Registration.apply, hfold]
  generalize (Registration.imports (n.importSource? source) _).bindings c = bs at hmem ⊢
  simp only [resolve, Option.bind_some, Option.isSome_iff_exists, Option.join_eq_some_iff,
    get?_foldl_add_iff]
  constructor
  · rintro ⟨name, hlast | ⟨-, hget⟩⟩
    · exact .inl hlast.written
    · exact .inr ⟨name, hget⟩
  · intro h
    by_cases hwritten : Written c bs k
    · obtain ⟨v, hlast⟩ := written_iff_exists_lastWrite.1 hwritten
      obtain ⟨_, b, _, hsplit, hwrites, -⟩ := id hlast
      have hb : b ∈ bs := by simp [hsplit]
      obtain ⟨name, rfl⟩ :=
        Option.isSome_iff_exists.1 (Node.isSome_of_writes (hmem b hb) hwrites)
      exact ⟨name, .inl hlast⟩
    · obtain ⟨name, hget⟩ := h.resolve_left hwritten
      exact ⟨name, .inr ⟨hwritten, hget⟩⟩

theorem Grown.refl (a : Aliases) : a.Grown a := fun _ => id

/-- An import takes no meaning away. -/
theorem Grown.trans_observeImport (h : a.Grown a') (n : Node) :
    a.Grown (a'.observeImport c n source).1
  | none, hkey => h none hkey
  | some k, hkey => isSome_resolve_observeImport_iff.2 (.inr (h (some k) hkey))

/-- The same import keeps a table ahead of another. -/
theorem Grown.observeImport (h : a.Grown a') (n : Node) :
    (a.observeImport c n source).1.Grown (a'.observeImport c n source).1
  | none, hkey => h none hkey
  | some k, hkey => isSome_resolve_observeImport_iff.2
      ((isSome_resolve_observeImport_iff.1 hkey).imp_right (h (some k)))

theorem observeImport_of_untracked (h : c.tracks (n.importSource? source) = false) :
    (a.observeImport c n source).1 = a := by
  rw [Aliases.observeImport, observe, h]
  rfl

end Aliases

namespace Node

variable {n : Node} {aliases aliases' : Aliases} {source : Bytes}

theorem isEffectCall_of_grown (h : aliases.Grown aliases')
    (heffect : n.isEffectCall aliases source = true) : n.isEffectCall aliases' source = true := by
  obtain ⟨e, hpath, hcall, hname⟩ := isEffectCall_iff_exists_path.1 heffect
  refine isEffectCall_iff_exists_path.2 ⟨e, hpath, hcall, ?_⟩
  rw [← Option.isSome_iff_exists] at hname ⊢
  exact h _ hname

theorem missesStar_of_grown (h : aliases.Grown aliases')
    (hmisses : n.missesStar aliases source = true) : n.missesStar aliases' source = true := by
  rw [missesStar, Bool.and_eq_true, Option.any_eq_true] at hmisses ⊢
  obtain ⟨hstar, argument, hargument, heffect⟩ := hmisses
  exact ⟨hstar, argument, hargument, isEffectCall_of_grown h heffect⟩

theorem isBareCall_of_grown (h : aliases.Grown aliases') (hcall : n.kind = "call_expression")
    {nesting : Nesting} (hbare : n.isBareCall aliases nesting source = true) :
    n.isBareCall aliases' nesting source = true := by
  rw [isBareCall, resolveEffect_call hcall] at hbare ⊢
  simp only [Bool.and_eq_true] at hbare ⊢
  obtain ⟨⟨⟨hparent, heffect⟩, hyield⟩, hgenerator⟩ := hbare
  exact ⟨⟨⟨hparent, h _ heffect⟩, hyield⟩, hgenerator⟩

end Node

/-! ## Nodes that have moved -/

namespace Node

variable {n n' : Node} {first : Nat}

/-- What has become of a node where something was put in beside the nodes above it: a node
with the same below it, below nodes of the same kinds, and not before some place. -/
structure Moved (first : Nat) (n n' : Node) : Prop where
  tree : n.SameTree n'
  kindsAbove : n'.kindsAbove = n.kindsAbove
  place : first ≤ n'.index

theorem Moved.anywhere (h : n.Moved first n') : n.Moved 0 n' := { h with place := Nat.zero_le _ }

theorem Moved.children (h : n.Moved first n') :
    List.Forall₂ (Moved first) n.children n'.children := by
  refine (forall₂_zip h.tree.children).imp fun c c' ⟨hc, hzip⟩ => ?_
  obtain ⟨hmem, hmem'⟩ := List.of_mem_zip hzip
  refine ⟨hc, ?_, h.place.trans (index_lt_of_mem_children hmem').le⟩
  rw [kindsAbove_of_mem_children hmem', kindsAbove_of_mem_children hmem, h.tree.kind,
    h.kindsAbove]

/-- Rows of the same trees, below nodes of the same kinds. -/
theorem forall₂_moved {ns ns' : List Node} {kinds : List String}
    (htrees : ns'.map (·.tree) = ns.map (·.tree)) (habove : ∀ m ∈ ns ++ ns', m.kindsAbove = kinds)
    (hplace : ∀ m ∈ ns', first ≤ m.index) : List.Forall₂ (Moved first) ns ns' := by
  have hsame : List.Forall₂ SameTree ns ns' := by
    have heq : List.Forall₂ Eq (ns.map (·.tree)) (ns'.map (·.tree)) := by
      rw [List.forall₂_eq_eq_eq, htrees]
    rw [List.forall₂_map_left_iff, List.forall₂_map_right_iff] at heq
    exact heq.imp fun _ _ => Eq.symm
  refine (forall₂_zip hsame).imp fun m m' ⟨hm, hzip⟩ => ?_
  obtain ⟨hmem, hmem'⟩ := List.of_mem_zip hzip
  refine ⟨hm, ?_, hplace m' hmem'⟩
  rw [habove m (List.mem_append_left _ hmem), habove m' (List.mem_append_right _ hmem')]

/-- The rule is told the same of nodes that have moved. -/
theorem likeness_moved (first : Nat) :
    Likeness (Moved first) (Moved first) (fun _ => False) (fun _ => false) where
  kind h := h.tree.kind
  named h := by rw [Node.named, h.tree.label]; rfl
  span h := by rw [Node.span, h.tree.label]; rfl
  above h := by
    rw [h.kindsAbove]
    exact .of_forall₂ (List.forall₂_refl _)
  children h := .of_forall₂ <| h.children.imp fun c c' hc =>
    ⟨hc, by rw [Node.field, hc.tree.label]; rfl⟩
  place := .inl
  idle h := h.elim
  yields _ h := nomatch h
  star _ h := nomatch h

end Node

/-! ## Walks over rows of nodes -/

namespace Rule

variable {rule : Rule} {source : Bytes} {n imp : Node} {ns ns' : List Node} {first : Nat}

/-- The kinds of the nodes at which the rule does something. -/
def watchedKinds : List String :=
  ["import_statement", "yield_expression", "call_expression"] ++ Node.functionKinds

theorem handle_of_unwatched {e : Event}
    (h : e.node.named = true → e.node.kind ∉ watchedKinds) (p : Pass) :
    (rule.hooks source).handle p e = p := by
  have hcall (n : Node) (h : n.named = true → n.kind ∉ watchedKinds) :
      Hooks.call (rule.hooks source).enter n p = p ∧
        Hooks.call (rule.hooks source).exit n p = p := by
    by_cases hnamed : n.named = true
    · have hkind := h hnamed
      simp only [watchedKinds, List.mem_append, List.mem_cons, List.not_mem_nil, or_false,
        not_or] at hkind
      obtain ⟨⟨himport, hyield, hcall⟩, hfunction⟩ := hkind
      simp [Hooks.call, hooks, himport, hyield, hcall, hfunction]
    · simp [Hooks.call, hnamed]
  cases e with
  | enter n => exact (hcall n h).1
  | exit n => exact (hcall n h).2

/-- Over rows in which nothing is watched, a walk does nothing. -/
theorem foldl_visits_of_unwatched
    (h : ∀ m ∈ ns.flatMap Node.preorder, m.named = true → m.kind ∉ watchedKinds) (p : Pass) :
    (ns.flatMap Node.visit).foldl (rule.hooks source).handle p = p := by
  have hidle : ∀ p, ∀ e ∈ ns.flatMap Node.visit, (rule.hooks source).handle p e = p := by
    intro p e he
    obtain ⟨n, hn, he⟩ := List.mem_flatMap.1 he
    exact handle_of_unwatched (h _ (List.mem_flatMap.2 ⟨n, hn, Node.node_mem_preorder he⟩)) p
  rw [List.foldl_ext _ _ p hidle]
  exact List.foldl_fixed _

/-- All that a walk over an import statement does. -/
theorem foldl_visit_import (himport : imp.isImport = true)
    (hbelow : ∀ m ∈ imp.below, m.named = true → m.kind ∉ watchedKinds) (p : Pass) :
    imp.visit.foldl (rule.hooks source).handle p =
      { p with aliases := (p.aliases.observeImport rule.catalogue imp source).1 } := by
  have hkind := Node.kind_of_isImport himport
  have hyield : imp.opensYield = false := by simp [Node.opensYield, Node.isYield, hkind]
  have hgenerator : imp.opensGenerator = false := by
    simp [Node.opensGenerator, Node.isGenerator, hkind]
  rw [Node.visit_eq, List.foldl_append, List.foldl_cons, List.foldl_nil, List.foldl_cons,
    foldl_visits_of_unwatched hbelow, handle_exit, handle_enter]
  simp [himport, hyield, hgenerator, hkind]

/-- What steps over nodes that have moved keep up, walks over rows of them keep up. -/
theorem foldl_visits_of_moved {inv : Pass → Pass → Prop}
    (h : List.Forall₂ (Node.Moved first) ns ns')
    (step : ∀ e e' p p', e.Same (Node.Moved first) e' → inv p p' →
      inv ((rule.hooks source).handle p e) ((rule.hooks source).handle p' e')) {p p' : Pass}
    (hp : inv p p') : inv ((ns.flatMap Node.visit).foldl (rule.hooks source).handle p)
      ((ns'.flatMap Node.visit).foldl (rule.hooks source).handle p') := by
  have hnodes : Interspersed (Node.Moved first) (fun _ => False) ns ns' := .of_forall₂ h
  have hrows : Interspersed (Event.Same (Node.Moved first)) (Event.IsNew fun _ => False)
      (ns.flatMap Node.visit) (ns'.flatMap Node.visit) :=
    hnodes.flatMap (fun _ _ _ hn => (Node.likeness_moved first).visit hn) nofun
  refine hrows.foldl step (fun e p p' he => ?_) p p' hp
  rcases he with ⟨⟨⟩⟩ | ⟨⟨⟩⟩

theorem same_foldl_visits (rule : Rule) (source : Bytes)
    (h : List.Forall₂ (Node.Moved 0) ns ns') :
    Pass.Same (Node.Moved 0) (fun _ => false)
      ((ns.flatMap Node.visit).foldl (rule.hooks source).handle {})
      ((ns'.flatMap Node.visit).foldl (rule.hooks source).handle {}) :=
  foldl_visits_of_moved h (fun _ _ _ _ he hp => (Node.likeness_moved 0).handle he hp)
    ⟨rfl, rfl, .nil⟩

/-- Nothing is done at the root of a document: a walk is one over the rows below it. -/
theorem findings_of_rows (hkind : n.kind = "program") (hrow : n.children = ns ++ ns') :
    rule.findings source n = ((ns'.flatMap Node.visit).foldl (rule.hooks source).handle
      ((ns.flatMap Node.visit).foldl (rule.hooks source).handle {})).findings := by
  have hidle : n.kind ∉ watchedKinds := by
    rw [hkind]
    decide
  rw [findings, Node.walk, Node.events_eq_visit, Node.visit_eq, List.foldl_append,
    List.foldl_cons, List.foldl_nil, handle_of_unwatched (e := .exit n) fun _ => hidle,
    List.foldl_cons, handle_of_unwatched (e := .enter n) fun _ => hidle, hrow,
    List.flatMap_append, List.foldl_append]

/-- A state of a walk in which the rule knows more than in another, and has found the same and
maybe more, but nothing more before some place. -/
structure Pass.Gained (first : Nat) (p p' : Pass) : Prop where
  aliases : p.aliases.Grown p'.aliases
  nesting : p'.nesting = p.nesting
  findings : Interspersed (Finding.Same (Node.Moved 0)) (first ≤ ·.anchor.index)
    p.findings p'.findings

namespace Pass.Gained

variable {p p' : Pass}

theorem of_same (h : p.Same (Node.Moved 0) (fun _ => false) p') (first : Nat) :
    p.Gained first p' where
  aliases := h.aliases ▸ .refl _
  nesting := h.nesting
  findings := .of_forall₂ (by simpa using h.findings)

theorem of_import (h : p.Gained first p') (c : Catalogue) (source : Bytes) (imp : Node) :
    p.Gained first { p' with aliases := (p'.aliases.observeImport c imp source).1 } :=
  { h with aliases := h.aliases.trans_observeImport imp }

theorem interspersed_found {P Q : Prop} [Decidable P] [Decidable Q] {f f' : Finding}
    {same : Node → Node → Prop} {extra : Finding → Prop} (h : f.Same same f') (hextra : extra f')
    (himp : P → Q) : Interspersed (Finding.Same same) extra (if P then [f] else [])
      (if Q then [f'] else []) := by
  by_cases hP : P
  · rw [if_pos hP, if_pos (himp hP)]
    exact .keep h .nil
  · rw [if_neg hP]
    refine .of_extra fun d hd => ?_
    obtain ⟨-, rfl⟩ : Q ∧ d = f' := by simpa using hd
    exact hextra

/-- **One event.** At a node that has moved, what is found by those who know less is found. -/
theorem handle {e e' : Event} (he : e.Same (Node.Moved first) e') (h : p.Gained first p') :
    ((rule.hooks source).handle p e).Gained first ((rule.hooks source).handle p' e') := by
  have like := Node.likeness_moved first
  cases he with
  | exit node =>
    rw [handle_exit, handle_exit, like.opensGenerator node, like.opensYield node, h.nesting]
    exact ⟨h.aliases, rfl, h.findings⟩
  | @enter n n' node =>
    rw [handle_enter, handle_enter, like.opensGenerator node, like.opensYield node,
      like.isImport node, like.named node, like.kind node, h.nesting]
    refine ⟨?_, rfl, h.findings.append ?_⟩
    · cases himport : n.isImport with
      | false => exact h.aliases
      | true =>
        simp only [if_true, like.observeImport node (Node.kind_of_isImport himport)]
        exact h.aliases.observeImport n
    · by_cases hyield : n.kind = "yield_expression"
      · simp only [hyield, true_and, String.reduceEq, false_and, and_false, if_false,
          like.missesStar node, Bool.not_false, Bool.and_true]
        exact interspersed_found ⟨node.anywhere, like.starFix node⟩ node.place
          (.imp_right (Node.missesStar_of_grown h.aliases))
      · simp only [hyield, false_and, and_false, if_false]
        refine interspersed_found ⟨node.anywhere, like.yieldFix node⟩ node.place ?_
        rintro ⟨hnamed, hcall, hbare⟩
        rw [like.isBareCall node hcall]
        exact ⟨hnamed, hcall, Node.isBareCall_of_grown h.aliases hcall hbare⟩

theorem foldl_visits (rule : Rule) (source : Bytes)
    (h : List.Forall₂ (Node.Moved first) ns ns') (hp : p.Gained first p') :
    ((ns.flatMap Node.visit).foldl (rule.hooks source).handle p).Gained first
      ((ns'.flatMap Node.visit).foldl (rule.hooks source).handle p') :=
  foldl_visits_of_moved h (fun _ _ _ _ => Gained.handle) hp

end Pass.Gained

end Rule

/-! ## Documents with one more import -/

/-- A document, and the same document with an import statement put in below its root. Nothing
that the rule watches is below the import statement. -/
structure ImportPutIn (root root' imp : Node) : Prop where
  document : ∃ label before after, label.kind = "program" ∧
    root = .ofTree (.node label (before ++ after)) ∧
    root' = .ofTree (.node label (before ++ imp.tree :: after)) ∧
    root'.children[before.length]? = some imp
  isImport : imp.isImport = true
  below : ∀ m ∈ imp.below, m.named = true → m.kind ∉ Rule.watchedKinds

namespace ImportPutIn

variable {root root' imp : Node} (h : ImportPutIn root root' imp)

include h

theorem kind : root.kind = "program" ∧ root'.kind = "program" := by
  obtain ⟨label, before, after, hprogram, rfl, rfl, -⟩ := h.document
  exact ⟨hprogram, hprogram⟩

/-- The other nodes below the root have moved: those behind the import, behind all of it. -/
theorem exists_rows : ∃ before after before' after',
    root.children = before ++ after ∧ root'.children = before' ++ imp :: after' ∧
      List.Forall₂ (Node.Moved 0) before before' ∧
      List.Forall₂ (Node.Moved (imp.index + imp.tree.size)) after after' := by
  have habove : ∀ m ∈ root.children ++ root'.children, m.kindsAbove = ["program"] := by
    obtain ⟨label, before, after, hprogram, rfl, rfl, -⟩ := h.document
    intro m hm
    rcases List.mem_append.1 hm with hm | hm <;> rw [Node.kindsAbove_of_mem_children hm] <;>
      exact congrArg (· :: []) hprogram
  obtain ⟨label, before, after, -, hroot, hroot', himp⟩ := h.document
  have htrees : root.children.map (·.tree) = before ++ after := by
    rw [Node.map_tree_children, hroot]
    rfl
  have htrees' : root'.children.map (·.tree) = before ++ imp.tree :: after := by
    rw [Node.map_tree_children, hroot']
    rfl
  obtain ⟨ns, ms, hrow, hns, hms⟩ := List.map_eq_append_iff.1 htrees
  obtain ⟨ns', rest, hrow', hns', hrest⟩ := List.map_eq_append_iff.1 htrees'
  obtain ⟨imp', ms', rfl, -, hms'⟩ := List.map_eq_cons_iff.1 hrest
  have hplace : ns'.length = before.length := by rw [← hns', List.length_map]
  obtain rfl : imp' = imp := by
    rw [hrow', ← hplace, List.getElem?_append_right le_rfl, Nat.sub_self] at himp
    exact Option.some.inj himp
  have hsorted := root'.pairwise_index_children
  rw [hrow', List.pairwise_append, List.pairwise_cons] at hsorted
  rw [hrow, hrow'] at habove
  refine ⟨ns, ms, ns', ms', hrow, hrow',
    Node.forall₂_moved (hns'.trans hns.symm) (fun m hm => habove m ?_) fun _ _ => Nat.zero_le _,
    Node.forall₂_moved (hms'.trans hms.symm) (fun m hm => habove m ?_) hsorted.2.1.1⟩
  all_goals
    simp only [List.mem_append, List.mem_cons] at hm ⊢
    tauto

variable {rule : Rule} {source : Bytes}

/-- Behind the import, the same is found, and maybe more. -/
theorem interspersed_findings : Interspersed (Finding.Same (Node.Moved 0))
    (imp.index + imp.tree.size ≤ ·.anchor.index) (rule.findings source root)
    (rule.findings source root') := by
  obtain ⟨before, after, before', after', hrow, hrow', hbefore, hafter⟩ := h.exists_rows
  have hgained := Rule.Pass.Gained.of_same (Rule.same_foldl_visits rule source hbefore)
    (imp.index + imp.tree.size)
  have hrest := (hgained.of_import rule.catalogue source imp).foldl_visits rule source hafter
  rw [Rule.findings_of_rows h.kind.1 hrow, Rule.findings_of_rows h.kind.2 hrow',
    List.flatMap_cons, List.foldl_append, Rule.foldl_visit_import h.isImport h.below]
  exact hrest.findings

/-- An import of no tracked module makes no difference. -/
theorem forall₂_findings (huntracked : rule.catalogue.tracks (imp.importSource? source) = false) :
    List.Forall₂ (Finding.Same (Node.Moved 0)) (rule.findings source root)
      (rule.findings source root') := by
  obtain ⟨before, after, before', after', hrow, hrow', hbefore, hafter⟩ := h.exists_rows
  have hrows := List.rel_append hbefore (hafter.imp fun _ _ hm => hm.anywhere)
  have hsame := Rule.same_foldl_visits rule source hrows
  rw [List.flatMap_append, List.flatMap_append, List.foldl_append, List.foldl_append] at hsame
  rw [Rule.findings_of_rows h.kind.1 hrow, Rule.findings_of_rows h.kind.2 hrow',
    List.flatMap_cons, List.foldl_append, Rule.foldl_visit_import h.isImport h.below,
    Aliases.observeImport_of_untracked huntracked]
  simpa using hsame.findings

end ImportPutIn

/-- **An import only adds to a report.** Where an import statement is put in below the root of a
document, all that was reported is reported still, in the same order and word for word. What is
reported beside it stands behind the import, and behind all that is below the import. An import
of no tracked module leaves the report as it was. -/
theorem Rule.imports_only_add (rule : Rule) (source : Bytes) (path : String)
    {root root' imp : Node} (h : ImportPutIn root root' imp) :
    Interspersed
        (fun f f' => f.Same (Node.Moved 0) f' ∧
          rule.report source path f' = rule.report source path f)
        (fun f => imp.index + imp.tree.size ≤ f.anchor.index)
        (rule.findings source root) (rule.findings source root') ∧
      (rule.check source path root).Sublist (rule.check source path root') ∧
      (rule.catalogue.tracks (imp.importSource? source) = false →
        rule.check source path root' = rule.check source path root) := by
  have hreport (f f' : Finding) (hsame : f.Same (Node.Moved 0) f') :
      rule.report source path f' = rule.report source path f :=
    (Node.likeness_moved 0).report_of_same hsame
  refine ⟨h.interspersed_findings.imp (fun f f' hsame => ⟨hsame, hreport f f' hsame⟩)
      fun _ => (·),
    h.interspersed_findings.map_sublist hreport, fun huntracked => ?_⟩
  exact map_eq_of_forall₂ (h.forall₂_findings huntracked) hreport

open NestedSaga in
/-- The generator of the nested saga without its import, with it, and with it twice. The import
adds both yields to the report, and the second one, behind it, leaves them there. -/
theorem imports_only_add_of_nestedSaga :
    let label := (tree true false false).label
    let statement := (tree true false false).children.take 1
    let generator := (tree true false false).children.drop 1
    let bare := Node.ofTree (.node label generator)
    let once := Node.ofTree (.node label (statement ++ generator))
    let twice := Node.ofTree (.node label (statement ++ statement ++ generator))
    let check := ({} : Rule).check (source false false) "a.js"
    ImportPutIn bare once once.children.headI ∧
      ImportPutIn once twice (twice.children.drop 1).headI ∧
      check bare = [] ∧
      (check once).map (·.snippet) = ["yield call(yield call())", "yield call()"] ∧
      (check once).Sublist (check twice) ∧ (check twice).length = 2 := by
  intro label statement generator bare once twice check
  have hfirst : ImportPutIn bare once once.children.headI :=
    ⟨⟨label, [], generator, rfl, rfl, rfl, rfl⟩, by decide +kernel, by decide +kernel⟩
  have hsecond : ImportPutIn once twice (twice.children.drop 1).headI :=
    ⟨⟨label, statement, generator, rfl, rfl, rfl, rfl⟩, by decide +kernel, by decide +kernel⟩
  refine ⟨hfirst, hsecond, by decide +kernel, by decide +kernel, ?_, by decide +kernel⟩
  exact (Rule.imports_only_add {} (source false false) "a.js" hsecond).2.1

end YieldLint
