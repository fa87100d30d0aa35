/-
As many edits are applied as can be.

Edits are taken from the back, each that can be taken, and none is left for the sake of
others. That is best: of the edits that can still be taken, the one that begins last leaves
the most room before it. So what is taken of a row is at least as much as any other choice
from it (`length_le_taken`), and any choice of edits, in whatever order, can be put in the
order of the row (`exists_sublist_row`).
-/
import Mathlib
import YieldLint.Proofs.Leftovers

namespace YieldLint

namespace Edit

/-- Edits that can be applied together to a buffer of some length: they lie in it, no two of
them begin at the same byte, and one that begins before another ends before that one
begins. -/
structure Compatible (length : Nat) (es : List Edit) : Prop where
  inBounds : ∀ e ∈ es, e.InBounds length
  starts : es.Pairwise fun a b => a.startByte ≠ b.startByte
  clear : ∀ a ∈ es, ∀ b ∈ es, a.startByte < b.startByte → a.endByte ≤ b.startByte

namespace Compatible

variable {length : Nat} {es fs : List Edit}

theorem perm (h : Compatible length es) (hperm : es.Perm fs) : Compatible length fs where
  inBounds e he := h.inBounds e (hperm.mem_iff.2 he)
  starts := hperm.pairwise h.starts Ne.symm
  clear a ha b hb := h.clear a (hperm.mem_iff.2 ha) b (hperm.mem_iff.2 hb)

theorem of_precedes (hin : ∀ e ∈ es, e.InBounds length) (hsorted : es.Pairwise Precedes) :
    Compatible length es where
  inBounds := hin
  starts := hsorted.imp fun h => Int.ne_of_lt h.1
  clear a ha b hb hlt := by
    have hne : a ≠ b := fun heq => Int.ne_of_lt hlt (congrArg startByte heq)
    rcases precedes_or_precedes hsorted ha hb hne with h | h
    · exact h.2
    · exact absurd h.1 (Int.not_lt.2 (Int.le_of_lt hlt))

/-- From the back, each ends before the one before it in the row begins. -/
theorem pairwise_precedes (h : Compatible length es)
    (hback : es.Pairwise fun a b => b.startByte ≤ a.startByte) :
    es.Pairwise fun a b => b.Precedes a := by
  refine (hback.and h.starts).imp_of_mem fun {a b} ha hb hab => ?_
  have hlt : b.startByte < a.startByte := lt_of_le_of_ne hab.1 hab.2.symm
  exact ⟨hlt, h.clear b hb a ha hlt⟩

end Compatible

section Taken

variable {α : Type} (edit : α → Edit) (length : Nat)

/-- **Taking each edit that can be taken takes the most.** -/
theorem length_le_taken (row : List α) : ∀ (last : Option α) (chosen : List α),
    row.Pairwise (fun a b => (edit b).startByte ≤ (edit a).startByte) →
    chosen.Sublist row → chosen.Pairwise (fun a b => (edit b).Precedes (edit a)) →
    (∀ a ∈ chosen, (edit a).InBounds length ∧ ∀ b ∈ last, (edit a).Precedes (edit b)) →
    chosen.length ≤ (taken edit length last row).length := by
  induction row with
  | nil =>
    intro last chosen _ hsub _ _
    rw [List.sublist_nil.1 hsub]
    exact Nat.zero_le _
  | cons a rest ih =>
    intro last chosen hrow hsub hsorted hclear
    obtain ⟨hfirst, hrest⟩ := List.pairwise_cons.1 hrow
    rw [taken]
    split
    · cases chosen with
      | nil => exact Nat.zero_le _
      | cons b others =>
        -- The edit stands in for the first one chosen, which begins no later.
        have hab : (edit b).startByte ≤ (edit a).startByte := by
          rcases List.mem_cons.1 (hsub.subset List.mem_cons_self) with rfl | hb
          · exact Int.le_refl _
          · exact hfirst b hb
        obtain ⟨hothers, hsorted⟩ := List.pairwise_cons.1 hsorted
        refine Nat.succ_le_succ (ih (some a) others hrest hsub.tail hsorted fun c hc => ?_)
        obtain ⟨hstart, hend⟩ := hothers c hc
        refine ⟨(hclear c (List.mem_cons_of_mem b hc)).1, fun x hx => ?_⟩
        obtain rfl : a = x := Option.some.inj hx
        exact ⟨Int.lt_of_lt_of_le hstart hab, Int.le_trans hend hab⟩
    · rename_i hnot
      refine ih last chosen hrest ?_ hsorted hclear
      cases hsub with
      | cons _ hsub => exact hsub
      | cons_cons _ _ =>
        -- What can be chosen could have been taken.
        obtain ⟨hin, hlast⟩ := hclear a List.mem_cons_self
        refine absurd ?_ hnot
        rw [(fits_iff _ _).2 hin, Bool.true_and]
        cases last with
        | none => rfl
        | some b =>
          obtain ⟨hstart, hend⟩ := hlast b rfl
          exact decide_eq_true ⟨hend, Int.ne_of_lt hstart⟩

end Taken

variable {content : Bytes} {edits chosen : List Edit}

/-- Any choice of edits is a choice from the row in which they are looked at. -/
theorem exists_sublist_row (h : chosen.Subperm edits) :
    ∃ part : List (Edit × Nat), part.Sublist (row edits) ∧ (part.map (·.1)).Perm chosen := by
  have hperm : (fromBack edits).Perm edits := List.mergeSort_perm _ _
  obtain ⟨es, hes, hsub⟩ := h.trans hperm.symm.subperm
  rw [← map_fst_row, List.sublist_map_iff] at hsub
  obtain ⟨part, hpart, rfl⟩ := hsub
  exact ⟨part, hpart, hes⟩

theorem subperm_used (content : Bytes) (edits : List Edit) :
    ((used content edits).map (·.1)).Subperm edits := by
  have hsub : ((used content edits).map (·.1)).Subperm ((row edits).map (·.1)) := by
    rw [used, List.map_reverse]
    exact (List.reverse_perm _).subperm.trans ((taken_sublist _ _ _ _).map _).subperm
  rw [map_fst_row] at hsub
  exact hsub.trans (List.mergeSort_perm _ _).subperm

theorem compatible_used (content : Bytes) (edits : List Edit) :
    Compatible content.length ((used content edits).map (·.1)) := by
  refine .of_precedes (fun e he => ?_) (List.pairwise_map.2 (pairwise_used content edits))
  obtain ⟨a, ha, rfl⟩ := List.mem_map.1 he
  exact (mem_used ha).2

theorem length_le_used (hsub : chosen.Subperm edits) (h : Compatible content.length chosen) :
    chosen.length ≤ (used content edits).length := by
  obtain ⟨part, hpart, hperm⟩ := exists_sublist_row hsub
  have hback : (row edits).Pairwise fun a b => b.1.startByte ≤ a.1.startByte :=
    (pairwise_row edits).imp fun {a b} h => by
      unfold LookedAtBefore at h
      omega
  have hcompatible := h.perm hperm.symm
  have hsorted := hcompatible.pairwise_precedes (List.pairwise_map.2 (hback.sublist hpart))
  have hle := length_le_taken Prod.fst content.length (row edits) none part hback hpart
    (List.pairwise_map.1 hsorted)
    fun a ha => ⟨hcompatible.inBounds a.1 (List.mem_map_of_mem ha), nofun⟩
  rw [used, List.length_reverse, ← hperm.length_eq, List.length_map]
  exact hle

/-- **As many edits are applied as can be.** Edits stated in full are always applied, and the
number of those that are is the greatest size of a choice of them that lie in the buffer,
begin at different bytes and end before the next begins. -/
theorem applied_isGreatest (content : Bytes) (edits : List Edit) :
    ∃ edited, EditRequest.apply content (edits.map .ofEdit) = .ok edited ∧
      IsGreatest { k | ∃ chosen : List Edit, chosen.Subperm edits ∧
        Compatible content.length chosen ∧ chosen.length = k } edited.applied := by
  refine ⟨apply content edits, ?_, ?_, ?_⟩
  · rw [EditRequest.apply, EditRequest.edits_map_ofEdit]
    rfl
  · exact ⟨_, subperm_used content edits, compatible_used content edits, by
      rw [apply_eq, List.length_map]⟩
  · rintro k ⟨chosen, hsub, hcompatible, rfl⟩
    rw [apply_eq]
    exact length_le_used hsub hcompatible

end Edit

end YieldLint
