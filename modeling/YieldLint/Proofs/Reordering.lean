/-
The order in which edits are given makes no difference.

Edits are looked at from the back, and those of one range in the order in which they were
given. Where all edits of one range put in one text (`Consistent`), the row in which they are
looked at is known by the edits in it (`fromBack_eq_of_perm`), so that the same comes of them
in any order (`apply_eq_of_perm`).

The fixes that a check offers are such edits: two of one range are those of two yields there,
or of two calls, before which the same text is put (`consistent_check`). So the reports of a
check may be put in any order before their fixes are applied (`apply_check_of_perm`).
-/
import YieldLint.Proofs.Optimality
import YieldLint.Proofs.Passes
import YieldLint.Proofs.Reports

namespace YieldLint

namespace Edit

/-- Edits of one range put in one text. -/
def Consistent (edits : List Edit) : Prop :=
  ∀ a ∈ edits, ∀ b ∈ edits, a.range = b.range → a.text = b.text

instance (edits : List Edit) : Decidable (Consistent edits) :=
  inferInstanceAs (Decidable (∀ a ∈ edits, ∀ b ∈ edits, a.range = b.range → a.text = b.text))

variable {edits edits' : List Edit}

theorem eq_of_range_of_text {a b : Edit} (hrange : a.range = b.range) (htext : a.text = b.text) :
    a = b := by
  obtain ⟨aStart, aEnd, aText⟩ := a
  obtain ⟨bStart, bEnd, bText⟩ := b
  obtain ⟨rfl, rfl⟩ := Prod.mk.inj hrange
  obtain rfl : aText = bText := htext
  rfl

theorem range_eq_of_comesFirst {a b : Edit} (hab : comesFirst a b = true)
    (hba : comesFirst b a = true) : a.range = b.range := by
  simp only [comesFirst, decide_eq_true_eq] at hab hba
  refine Prod.ext ?_ ?_
  · simp only [range]
    omega
  · simp only [range]
    omega

/-- Consistent edits are looked at in an order of their own. -/
theorem fromBack_eq_of_perm (hperm : edits.Perm edits') (h : Consistent edits) :
    fromBack edits = fromBack edits' := by
  have hrow (es : List Edit) : (fromBack es).Perm es := List.mergeSort_perm es comesFirst
  have hsorted (es : List Edit) : (fromBack es).Pairwise fun a b => comesFirst a b = true :=
    List.pairwise_mergeSort comesFirst_trans comesFirst_total es
  refine List.Perm.eq_of_pairwise (fun a b ha hb hab hba => ?_) (hsorted edits) (hsorted edits')
    ((hrow edits).trans (hperm.trans (hrow edits').symm))
  have ha : a ∈ edits := (hrow edits).mem_iff.1 ha
  have hb : b ∈ edits := hperm.mem_iff.2 ((hrow edits').mem_iff.1 hb)
  have hrange := range_eq_of_comesFirst hab hba
  exact eq_of_range_of_text hrange (h a ha b hb hrange)

theorem apply_of_perm (hperm : edits.Perm edits') (h : Consistent edits) (content : Bytes) :
    apply content edits' = apply content edits := by
  rw [apply, apply, fromBack_eq_of_perm hperm h]

/-- **The order of edits makes no difference.** Let edits of one range put in one text. Given
in either of two orders they are applied, and the same comes of them: the buffer with the
ranges of the same edits replaced, and the same counts of those applied and of those skipped.
So it is with the fixes of violations, in whatever order these are reported. -/
theorem apply_eq_of_perm (hperm : edits.Perm edits') (h : Consistent edits) (content : Bytes) :
    ∃ taken : List Edit, taken.Subperm edits ∧ taken.Pairwise Precedes ∧
      let edited : Edited := {
        content := weave content 0 taken
        applied := taken.length
        skipped := edits.length - taken.length }
      EditRequest.apply content (edits.map .ofEdit) = .ok edited ∧
        EditRequest.apply content (edits'.map .ofEdit) = .ok edited ∧
        ∀ vs vs' : List Violation, Fixer.editsOf vs = edits → vs.Perm vs' →
          EditRequest.apply content ((Fixer.editsOf vs').map .ofEdit) = .ok edited := by
  refine ⟨(used content edits).map (·.1), subperm_used content edits,
    List.pairwise_map.2 (pairwise_used content edits), ?_⟩
  rw [List.length_map]
  intro edited
  have hany (given : List Edit) (hgiven : edits.Perm given) :
      EditRequest.apply content (given.map .ofEdit) = .ok edited := by
    rw [EditRequest.apply_ofEdit, apply_of_perm hgiven h, apply_eq]
  refine ⟨hany edits (.refl edits), hany edits' hperm, fun vs vs' hvs hvs' => ?_⟩
  subst hvs
  exact hany _ (hvs'.filterMap _)

/-- Edits that overlap, one of them given twice and one out of bounds: two are applied, from
the back and from the front. -/
theorem apply_eq_of_reverse :
    let content := Utf8.encode "abcdefghij"
    let edits : List Edit :=
      [⟨8, 20, "W"⟩, ⟨5, 9, "Z"⟩, ⟨2, 6, "Y"⟩, ⟨2, 6, "Y"⟩, ⟨0, 4, "X"⟩]
    let edited : Edited := ⟨Utf8.encode "XeZj", 2, 3⟩
    edits.Perm edits.reverse ∧ Consistent edits ∧
      EditRequest.apply content (edits.map .ofEdit) = .ok edited ∧
      EditRequest.apply content (edits.reverse.map .ofEdit) = .ok edited := by
  intro content edits edited
  have hperm : edits.Perm edits.reverse := (List.reverse_perm edits).symm
  have hconsistent : Consistent edits := by decide
  have hback : fromBack edits = edits := List.mergeSort_of_pairwise (by decide)
  have hforth : EditRequest.apply content (edits.map .ofEdit) = .ok edited := by
    rw [EditRequest.apply_ofEdit, apply, hback]
    decide +kernel
  obtain ⟨taken, -, -, hgiven, hreversed, -⟩ := apply_eq_of_perm hperm hconsistent content
  exact ⟨hperm, hconsistent, hforth, hreversed.trans (hgiven.symm.trans hforth)⟩

end Edit

/-! ## The fixes of a check -/

namespace Rule

variable {rule : Rule} {source : Bytes} {path : String} {top : Node}
  (hyields : ∀ n ∈ top.preorder, n.kind = "yield_expression" → n.span.startByte ≠ n.span.endByte)

include hyields

theorem consistent_check : Edit.Consistent (Fixer.editsOf (rule.check source path top)) := by
  rw [Fixer.editsOf_check]
  split
  case isFalse => exact fun a ha => nomatch ha
  intro a ha b hb hrange
  obtain ⟨f, hf, rfl⟩ := List.mem_map.1 ha
  obtain ⟨g, hg, rfl⟩ := List.mem_map.1 hb
  obtain ⟨hstart, hend⟩ := Prod.mk.inj hrange
  have hwide (f : Finding) (hf : f ∈ rule.findings source top)
      (hyield : f.anchor.kind = "yield_expression") :
      f.anchor.span.startByte ≠ f.anchor.span.endByte := by
    rw [findings_eq_expected] at hf
    exact hyields _ ((rule.mem_expected source top).1 hf).1 hyield
  rcases rule.fix_of_mem_findings source top hf with ⟨hfy, hffix⟩ | ⟨-, hffix⟩ <;>
    rcases rule.fix_of_mem_findings source top hg with ⟨hgy, hgfix⟩ | ⟨-, hgfix⟩ <;>
    rw [hffix, hgfix] at hstart hend ⊢ <;>
    simp only [Fix.edit, Node.starFix, Node.yieldFix, Int.ofNat_inj] at hstart hend ⊢
  · rw [Node.text, Node.text, hstart, hend]
  · exact absurd (hstart.trans hend.symm) (hwide f hf hfy)
  · exact absurd (hstart.symm.trans hend) (hwide g hg hgy)

/-- The reports of a check may be put in any order: the same comes of their fixes. -/
theorem apply_check_of_perm {vs : List Violation} (hperm : (rule.check source path top).Perm vs)
    (content : Bytes) : Edit.apply content (Fixer.editsOf vs) =
      Edit.apply content (Fixer.editsOf (rule.check source path top)) :=
  Edit.apply_of_perm (hperm.filterMap _) (consistent_check hyields) content

end Rule

end YieldLint
