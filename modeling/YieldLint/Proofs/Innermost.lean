/-
One pass settles the innermost violations.

In a tree whose nodes lie in one another and in a row as their texts do (`LaidOut`), of two
nodes one is below the other or ends before the other begins (`pairwise_preorder`). A yield
begins with its keyword, so what is below it begins later (`Keyworded.inside_of_mem_below`).
The fixes of yields are therefore edits that nest as the yields do, and what is applied of
such edits are the innermost ones.
-/
import YieldLint.Proofs.Leftovers
import YieldLint.Proofs.Stars

namespace YieldLint

namespace Node

/-! ## Nodes and their bytes -/

/-- The children of a node lie in its range, in order and apart. -/
structure LaidOut (n : Node) : Prop where
  within : ∀ c ∈ n.children,
    n.span.startByte ≤ c.span.startByte ∧ c.span.endByte ≤ n.span.endByte
  ordered : n.children.Pairwise fun a b => a.span.endByte ≤ b.span.startByte

instance (n : Node) : Decidable n.LaidOut :=
  decidable_of_iff (_ ∧ _) ⟨fun h => ⟨h.1, h.2⟩, fun h => ⟨h.1, h.2⟩⟩

/-- Is named, ends in a buffer of some length, and begins with a token: a first child at its
own start that is not empty, has no name and nothing below it. -/
structure Keyworded (n : Node) (length : Nat) : Prop where
  named : n.named = true
  inBounds : n.span.endByte ≤ length
  keyword : ∃ token ∈ n.children.head?, token.named = false ∧ token.tree.children = [] ∧
    token.span.startByte = n.span.startByte ∧ token.span.startByte < token.span.endByte

instance (n : Node) (length : Nat) : Decidable (n.Keyworded length) :=
  decidable_of_iff (_ ∧ _ ∧ _) ⟨fun h => ⟨h.1, h.2.1, h.2.2⟩, fun h => ⟨h.1, h.2, h.3⟩⟩

theorem within_of_mem_preorder {n top : Node} (hlaid : ∀ m ∈ top.preorder, m.LaidOut)
    (h : n ∈ top.preorder) :
    top.span.startByte ≤ n.span.startByte ∧ n.span.endByte ≤ top.span.endByte := by
  refine preorder_induction (P := fun n => top.span.startByte ≤ n.span.startByte ∧
    n.span.endByte ≤ top.span.endByte) h ⟨Nat.le_refl _, Nat.le_refl _⟩ fun m hm hin c hc => ?_
  obtain ⟨hstart, hend⟩ := (hlaid m hm).within c hc
  exact ⟨Nat.le_trans hin.1 hstart, Nat.le_trans hend hin.2⟩

theorem pairwise_preorder (top : Node) (hlaid : ∀ m ∈ top.preorder, m.LaidOut) :
    top.preorder.Pairwise fun a b => b ∈ a.below ∨ a.span.endByte ≤ b.span.startByte := by
  induction top using children_induction with
  | step n below =>
    have hbelow : ∀ c ∈ n.children, ∀ m ∈ c.preorder, m.LaidOut := fun c hc m hm =>
      hlaid m (preorder_subset_of_mem_children hc hm)
    rw [preorder_eq, List.pairwise_cons, List.pairwise_flatMap]
    refine ⟨fun m hm => .inl hm, fun c hc => below c hc (hbelow c hc), ?_⟩
    refine (hlaid n n.self_mem_preorder).ordered.imp_of_mem fun {c d} hc hd hcd m hm k hk => ?_
    -- The first ends with its child of the node or before, and the second begins with its own.
    have hend := (within_of_mem_preorder (hbelow c hc) hm).2
    have hstart := (within_of_mem_preorder (hbelow d hd) hk).1
    exact .inr (Nat.le_trans hend (Nat.le_trans hcd hstart))

namespace Keyworded

variable {y z : Node} {length : Nat}

theorem start_lt_end (h : y.Keyworded length) (hlaid : y.LaidOut) :
    y.span.startByte < y.span.endByte := by
  obtain ⟨token, htoken, -, -, hstart, hlt⟩ := h.keyword
  have hend := (hlaid.within token (List.mem_of_head? htoken)).2
  omega

theorem inside_of_mem_below (hy : y.Keyworded length) (hz : z.Keyworded length)
    (hlaid : ∀ m ∈ y.preorder, m.LaidOut) (h : z ∈ y.below) :
    y.span.startByte < z.span.startByte ∧ z.span.startByte < z.span.endByte ∧
      z.span.endByte ≤ y.span.endByte := by
  obtain ⟨token, htoken, hunnamed, hleaf, hstart, hlt⟩ := hy.keyword
  obtain ⟨rest, hrow⟩ : ∃ rest, y.children = token :: rest := List.head?_eq_some_iff.1 htoken
  obtain ⟨c, hc, hz'⟩ := List.mem_flatMap.1 h
  have hmem : z ∈ y.preorder := preorder_subset_of_mem_children hc hz'
  refine ⟨?_, hz.start_lt_end (hlaid z hmem), (within_of_mem_preorder hlaid hmem).2⟩
  have hordered := (hlaid y y.self_mem_preorder).ordered
  rw [hrow, List.pairwise_cons] at hordered
  rw [hrow] at hc
  rcases List.mem_cons.1 hc with rfl | hc
  · -- Below the keyword there is nothing, and it has no name itself.
    rw [preorder_eq, children_of_childless hleaf] at hz'
    obtain rfl : z = c := List.mem_singleton.1 hz'
    exact absurd hz.named (by rw [hunnamed]; exact Bool.false_ne_true)
  · have hbehind := hordered.1 c hc
    have hbelow : ∀ m ∈ c.preorder, m.LaidOut := fun m hm =>
      hlaid m (preorder_subset_of_mem_children (hrow ▸ List.mem_cons_of_mem token hc) hm)
    have hin := (within_of_mem_preorder hbelow hz').1
    omega

end Keyworded

end Node

namespace Edit

/-- Edits that come as the nodes of a tree do: each later one lies inside an earlier one or
behind it. -/
def Preordered (es : List Edit) : Prop := es.Pairwise fun a b => b.Inside a ∨ a.Precedes b

namespace Preordered

variable {content : Bytes} {es part : List Edit}

theorem nested (h : Preordered es) : Nested es := h.imp fun
  | .inl hinside => .inr (.inr (.inr hinside))
  | .inr hprecedes => .inl hprecedes

/-- The innermost edits, in the order in which they come, are those that are applied. -/
theorem map_fst_used (h : Preordered es) (hin : ∀ e ∈ es, e.InBounds content.length)
    (hsub : part.Sublist es) (hpart : ∀ e ∈ es, e ∈ part ↔ ∀ f ∈ es, ¬f.Inside e) :
    (used content es).map (·.1) = part := by
  have hused : ((used content es).map (·.1)).Pairwise Precedes :=
    List.pairwise_map.2 (pairwise_used content es)
  have hsorted : part.Pairwise Precedes :=
    (h.sublist hsub).imp_of_mem fun {a b} ha hb hab =>
      hab.resolve_left ((hpart a (hsub.mem ha)).1 ha b (hsub.mem hb))
  have hmem : ∀ e, e ∈ (used content es).map (·.1) ↔ e ∈ part := by
    intro e
    constructor
    · intro he
      obtain ⟨a, ha, rfl⟩ := List.mem_map.1 he
      have hes : a.1 ∈ es := List.fst_mem_of_mem_zipIdx (mem_used ha).1
      exact (hpart a.1 hes).2 ((mem_used_iff h.nested hin hes).1 he)
    · intro he
      have hes := hsub.mem he
      exact (mem_used_iff h.nested hin hes).2 ((hpart e hes).1 he)
  have hnodup : ∀ fs : List Edit, fs.Pairwise Precedes → fs.Nodup := fun fs hfs =>
    hfs.imp (S := fun a b => a ≠ b) fun hlt heq => Int.ne_of_lt hlt.1 (congrArg startByte heq)
  have hperm := (List.perm_ext_iff_of_nodup (hnodup _ hused) (hnodup _ hsorted)).2 hmem
  exact hperm.eq_of_pairwise
    (fun _ _ _ _ hab hba => absurd hba.1 (Int.not_lt.2 (Int.le_of_lt hab.1))) hused hsorted

end Preordered

end Edit

/-! ## The violations of a tree -/

namespace Rule

variable {rule : Rule} {source : Bytes} {top : Node}
variable (hlaid : ∀ n ∈ top.preorder, n.LaidOut)
  (hyields : ∀ n ∈ top.preorder, n.kind = "yield_expression" → n.Keyworded source.length)

include hyields in
theorem anchor_of_mem_findings {f : Finding} (h : f ∈ rule.findings source top) :
    f.anchor ∈ top.preorder ∧ f.anchor.kind = "yield_expression" ∧
      f.fix = f.anchor.starFix source := by
  rw [findings_eq_expected] at h
  refine ⟨((rule.mem_expected source top).1 h).1, ?_⟩
  exact rule.expected?_of_named_yields source top (fun n hn hy => (hyields n hn hy).named) h

include hlaid hyields in
theorem inBounds_of_mem_findings {f : Finding} (h : f ∈ rule.findings source top) :
    f.fix.edit.InBounds source.length := by
  obtain ⟨hmem, hy, hfix⟩ := anchor_of_mem_findings hyields h
  have hlt := (hyields _ hmem hy).start_lt_end (hlaid _ hmem)
  have hend := (hyields _ hmem hy).inBounds
  rw [hfix]
  simp only [Fix.edit, Node.starFix, Edit.InBounds]
  omega

include hlaid hyields in
theorem inside_of_mem_below {f g : Finding} (hf : f ∈ rule.findings source top)
    (hg : g ∈ rule.findings source top) (h : g.anchor ∈ f.anchor.below) :
    g.fix.edit.Inside f.fix.edit := by
  obtain ⟨hfmem, hfy, hffix⟩ := anchor_of_mem_findings hyields hf
  obtain ⟨hgmem, hgy, hgfix⟩ := anchor_of_mem_findings hyields hg
  obtain ⟨hstart, hlt, hend⟩ := (hyields _ hfmem hfy).inside_of_mem_below (hyields _ hgmem hgy)
    (fun m hm => hlaid m (Node.preorder_subset hfmem hm)) h
  rw [hffix, hgfix]
  simp only [Fix.edit, Node.starFix, Edit.Inside]
  omega

include hlaid hyields in
theorem pairwise_findings : (rule.findings source top).Pairwise fun f g =>
    g.anchor ∈ f.anchor.below ∨ f.fix.edit.Precedes g.fix.edit := by
  have hanchors := rule.map_anchor_expected_sublist source top
  rw [← findings_eq_expected] at hanchors
  have hnodes := List.pairwise_map.1 ((top.pairwise_preorder hlaid).sublist hanchors)
  refine hnodes.imp_of_mem fun {f g} hf hg hfg => hfg.imp_right fun hle => ?_
  obtain ⟨hfmem, hfy, hffix⟩ := anchor_of_mem_findings hyields hf
  obtain ⟨-, -, hgfix⟩ := anchor_of_mem_findings hyields hg
  have hlt := (hyields _ hfmem hfy).start_lt_end (hlaid _ hfmem)
  rw [hffix, hgfix]
  simp only [Fix.edit, Node.starFix, Edit.Precedes]
  omega

include hlaid hyields in
theorem mem_below_of_inside {f g : Finding} (hf : f ∈ rule.findings source top)
    (hg : g ∈ rule.findings source top) (h : g.fix.edit.Inside f.fix.edit) :
    g.anchor ∈ f.anchor.below := by
  let agree (f g : Finding) : Prop :=
    (g.fix.edit.Inside f.fix.edit → g.anchor ∈ f.anchor.below) ∧
      (f.fix.edit.Inside g.fix.edit → f.anchor ∈ g.anchor.below)
  have : Std.Symm agree := ⟨fun _ _ => And.symm⟩
  have hself : ∀ f ∈ rule.findings source top, agree f f := fun f _ =>
    ⟨fun h => absurd h.1 (Int.lt_irrefl _), fun h => absurd h.1 (Int.lt_irrefl _)⟩
  have hrow : (rule.findings source top).Pairwise agree := by
    refine (pairwise_findings hlaid hyields).imp_of_mem fun {f g} hf hg hfg => ?_
    rcases hfg with hbelow | hprecedes
    · have hinside := inside_of_mem_below hlaid hyields hf hg hbelow
      exact ⟨fun _ => hbelow, fun hback => absurd hback.1 (Int.not_lt.2 (Int.le_of_lt hinside.1))⟩
    · exact ⟨fun hin => absurd (.inr hprecedes) hin.not_precedes,
        fun hin => absurd (.inl hprecedes) hin.not_precedes⟩
  exact (hrow.forall_of_forall hself hf hg).1 h

include hlaid hyields in
theorem preordered_findings : Edit.Preordered ((rule.findings source top).map (·.fix.edit)) := by
  rw [Edit.Preordered, List.pairwise_map]
  refine (pairwise_findings hlaid hyields).imp_of_mem fun {f g} hf hg hfg => ?_
  exact hfg.imp_left (inside_of_mem_below hlaid hyields hf hg)

variable (rule) in
/-- **One pass settles the innermost violations.** In a tree that is laid out as its text is,
with yields that are named and begin with their keyword, yields alone are reported. Applying
the fixes of all of them at once applies those of the yields with no other reported yield
below them, and of no others; so it applies one if anything is reported. -/
theorem apply_settles_innermost (hlaid : ∀ n ∈ top.preorder, n.LaidOut)
    (hyields : ∀ n ∈ top.preorder, n.kind = "yield_expression" → n.Keyworded source.length)
    (path : String) :
    let found := rule.findings source top
    let edits := found.map (·.fix.edit)
    (rule.offersFixes = true → Fixer.editsOf (rule.check source path top) = edits) ∧
      ∃ settled : List Finding, settled.Sublist found ∧
        (∀ f ∈ found, f.anchor.kind = "yield_expression" ∧
          (f ∈ settled ↔ ∀ g ∈ found, g.anchor ∉ f.anchor.below)) ∧
        (Edit.used source edits).map (·.1) = settled.map (·.fix.edit) ∧
        Edit.apply source edits =
          { content := Edit.weave source 0 (settled.map (·.fix.edit))
            applied := settled.length
            skipped := found.length - settled.length } ∧
        (rule.check source path top ≠ [] → 0 < settled.length) := by
  intro found edits
  have hpre : Edit.Preordered edits := preordered_findings hlaid hyields
  have hin : ∀ e ∈ edits, e.InBounds source.length := fun e he => by
    obtain ⟨f, hf, rfl⟩ := List.mem_map.1 he
    exact inBounds_of_mem_findings hlaid hyields hf
  let settled := found.filter fun f => decide (∀ g ∈ found, g.anchor ∉ f.anchor.below)
  have hsettled : ∀ f ∈ found, f ∈ settled ↔ ∀ g ∈ found, g.anchor ∉ f.anchor.below := by
    intro f hf
    simp [settled, hf]
  have hused : (Edit.used source edits).map (·.1) = settled.map (·.fix.edit) := by
    refine hpre.map_fst_used hin (List.filter_sublist.map _) fun e he => ⟨fun h e' he' hin => ?_,
      fun h => ?_⟩
    · obtain ⟨f, hf, rfl⟩ := List.mem_map.1 h
      obtain ⟨g, hg, rfl⟩ := List.mem_map.1 he'
      have hf' := List.mem_of_mem_filter hf
      exact (hsettled f hf').1 hf g hg (mem_below_of_inside hlaid hyields hf' hg hin)
    · obtain ⟨f, hf, rfl⟩ := List.mem_map.1 he
      refine List.mem_map_of_mem ((hsettled f hf).2 fun g hg hbelow => ?_)
      exact h _ (List.mem_map_of_mem hg) (inside_of_mem_below hlaid hyields hf hg hbelow)
  have hlength : (Edit.used source edits).length = settled.length := by
    simpa using congrArg List.length hused
  refine ⟨fun hoffers => ?_, settled, List.filter_sublist, fun f hf => ?_, hused, ?_, ?_⟩
  · rw [Fixer.editsOf_check, if_pos hoffers]
  · exact ⟨(anchor_of_mem_findings hyields hf).2.1, hsettled f hf⟩
  · rw [Edit.apply_eq, hused, hlength, List.length_map]
  · intro hreported
    have hedits : edits ≠ [] := fun hnone => hreported (by
      rw [Rule.check, show rule.findings source top = [] from List.map_eq_nil_iff.1 hnone]
      rfl)
    rw [← hlength]
    exact List.length_pos_of_ne_nil (Edit.used_ne_nil hpre.nested hin hedits)

end Rule

open NestedSaga in
/-- Both yields of the saga are reported, and a pass settles the inner one. -/
theorem apply_nestedSaga_settles_innermost :
    let top := Node.ofTree (tree true false false)
    let old := source false false
    let found := ({} : Rule).findings old top
    (∀ n ∈ top.preorder, n.LaidOut) ∧
      (∀ n ∈ top.preorder, n.kind = "yield_expression" → n.Keyworded old.length) ∧
      found.map (·.anchor.span.startByte) = [48, 59] ∧
      ∃ settled : List Finding, settled.Sublist found ∧
        (∀ f ∈ found, f.anchor.kind = "yield_expression" ∧
          (f ∈ settled ↔ ∀ g ∈ found, g.anchor ∉ f.anchor.below)) ∧
        Edit.apply old (Fixer.editsOf (({} : Rule).check old "" top)) =
          { content := Edit.weave old 0 (settled.map (·.fix.edit))
            applied := settled.length
            skipped := 2 - settled.length } ∧
        0 < settled.length := by
  intro top old found
  have hlaid : ∀ n ∈ top.preorder, n.LaidOut := by decide +kernel
  have hyields : ∀ n ∈ top.preorder, n.kind = "yield_expression" → n.Keyworded old.length := by
    decide +kernel
  have hstarts : found.map (·.anchor.span.startByte) = [48, 59] := by decide +kernel
  have hlength : found.length = 2 := by simpa using congrArg List.length hstarts
  obtain ⟨hedits, settled, hsub, hsettled, -, happly, hpos⟩ :=
    Rule.apply_settles_innermost {} hlaid hyields ""
  refine ⟨hlaid, hyields, hstarts, settled, hsub, hsettled, ?_, ?_⟩
  · rw [hedits rfl, happly, hlength]
  · refine hpos fun hnone => ?_
    have hnone : found = [] := List.map_eq_nil_iff.1 hnone
    rw [hnone] at hlength
    cases hlength

end YieldLint
