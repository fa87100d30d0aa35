/-
Edits that lie in one another, and what applying them leaves out.

The fixes of yields in the arguments of yields are edits of which any two lie apart
or one inside the other (`Nested`). Of these the innermost are applied: an edit is
left out only if one inside it is applied (`exists_used_inside`), and of an edit that
is applied, all that is inside it is left out. So each time edits are applied, one
level of nesting goes, no more and no less (`exists_deep_leftOut`), and it does not
matter that the bytes around the others move (`exists_deep_moved`).
-/
import Mathlib
import YieldLint.Proofs.Splice

namespace YieldLint

namespace Edit

/-! ## Nesting -/

/-- Begins in another edit, not where that one begins, and ends with it or before. -/
def Inside (a b : Edit) : Prop :=
  b.startByte < a.startByte ∧ a.startByte < b.endByte ∧ a.endByte ≤ b.endByte

theorem Inside.trans {a b c : Edit} (hab : a.Inside b) (hbc : b.Inside c) : a.Inside c := by
  unfold Inside at *
  omega

theorem Inside.not_precedes {a b : Edit} (h : a.Inside b) : ¬(a.Precedes b ∨ b.Precedes a) := by
  unfold Inside at h
  unfold Precedes
  omega

/-- Of two edits in a row that lie apart, one precedes the other. -/
theorem precedes_or_precedes {es : List Edit} (h : es.Pairwise Precedes) {a b : Edit}
    (ha : a ∈ es) (hb : b ∈ es) (hne : a ≠ b) : a.Precedes b ∨ b.Precedes a := by
  have hapart : es.Pairwise fun a b => a.Precedes b ∨ b.Precedes a := h.imp .inl
  have : Std.Symm fun a b : Edit => a.Precedes b ∨ b.Precedes a := ⟨fun _ _ => Or.symm⟩
  exact hapart.forall ha hb hne

/-- Lie apart, or one inside the other. -/
def Nest (a b : Edit) : Prop := a.Precedes b ∨ b.Precedes a ∨ a.Inside b ∨ b.Inside a

instance : Std.Symm Nest where
  symm a b h := by
    rcases h with h | h | h | h
    · exact .inr (.inl h)
    · exact .inl h
    · exact .inr (.inr (.inr h))
    · exact .inr (.inr (.inl h))

theorem Nest.ne {a b : Edit} (h : a.Nest b) : a ≠ b := by
  rintro rfl
  unfold Nest Precedes Inside at h
  omega

/-- An edit that stands in the way of one that begins no later lies inside it. -/
theorem Nest.inside_of_conflicts {a b : Edit} (h : a.Nest b) (hstart : a.startByte ≤ b.startByte)
    (hconflicts : a.Conflicts b) : b.Inside a := by
  unfold Conflicts at hconflicts
  rcases h with h | h | h | h
  · unfold Precedes at h
    omega
  · exact absurd h.1 (Int.not_lt.2 hstart)
  · exact absurd h.1 (Int.not_lt.2 hstart)
  · exact h

/-- Any two of the edits lie apart, or one inside the other. -/
def Nested (es : List Edit) : Prop := es.Pairwise Nest

/-- Is one of some edits, and has so many more of them in it, each inside the one
before. -/
def Deep (es : List Edit) : Nat → Edit → Prop
  | 0, e => e ∈ es
  | n + 1, e => e ∈ es ∧ ∃ f, f.Inside e ∧ Deep es n f

theorem Deep.mem {es : List Edit} : ∀ {n : Nat} {e : Edit}, Deep es n e → e ∈ es
  | 0, _, h => h
  | _ + 1, _, h => h.1

/-- What nests in an edit stays as deep as long as no edit inside that one goes. -/
theorem Deep.of_inside {es fs : List Edit} {e : Edit} (h : ∀ f ∈ es, f.Inside e → f ∈ fs) :
    ∀ {n : Nat} {f : Edit}, Deep es n f → f.Inside e → Deep fs n f
  | 0, _, hf, hfe => h _ hf hfe
  | _ + 1, _, ⟨hf, g, hgf, hdeep⟩, hfe =>
    ⟨h _ hf hfe, g, hgf, of_inside h hdeep (hgf.trans hfe)⟩

/-- Edits nest no deeper than there are edits. -/
theorem Deep.lt_length : ∀ {n : Nat} {es : List Edit} {e : Edit}, Deep es n e → n < es.length
  | 0, _, _, he => List.length_pos_of_mem he
  | n + 1, es, e, ⟨he, f, hfe, hdeep⟩ => by
    have herase : Deep (es.erase e) n f := by
      refine hdeep.of_inside (fun g hg hge => ?_) hfe
      exact (List.mem_erase_of_ne (by rintro rfl; exact Int.lt_irrefl _ hge.1)).2 hg
    have hlt := herase.lt_length
    rw [List.length_erase_of_mem he] at hlt
    omega

/-- Nesting carries over to edits that stand in for others and keep what is inside
what. -/
theorem Deep.transfer {es fs : List Edit} {R : Edit → Edit → Prop}
    (htotal : ∀ e ∈ es, ∃ f ∈ fs, R e f)
    (hinside : ∀ {a b a' b'}, R a a' → R b b' → b.Inside a → b'.Inside a') :
    ∀ {n : Nat} {e f : Edit}, Deep es n e → f ∈ fs → R e f → Deep fs n f
  | 0, _, _, _, hf, _ => hf
  | _ + 1, _, _, ⟨_, _, hin, hdeep⟩, hf, hef => by
    obtain ⟨g, hg, hR⟩ := htotal _ hdeep.mem
    exact ⟨hf, g, hinside hef hR hin, transfer htotal hinside hdeep hg hR⟩

/-! ## Moving edits -/

/-- Where an edit begins and ends. -/
def range (e : Edit) : Int × Int := (e.startByte, e.endByte)

/-- Stand, in order, where other edits stood, moved along with the bytes there. -/
def Moved (move : Int → Int) (es fs : List Edit) : Prop :=
  fs.map range = es.map fun e => (move e.startByte, move e.endByte)

section Moved

variable {move : Int → Int} {es fs : List Edit}

theorem Moved.exists_right (h : Moved move es fs) {e : Edit} (he : e ∈ es) :
    ∃ f ∈ fs, f.range = (move e.startByte, move e.endByte) := by
  have hmem : (move e.startByte, move e.endByte) ∈ fs.map range := by
    rw [h]
    exact List.mem_map_of_mem he
  obtain ⟨f, hf, heq⟩ := List.mem_map.1 hmem
  exact ⟨f, hf, heq⟩

theorem Moved.exists_left (h : Moved move es fs) {f : Edit} (hf : f ∈ fs) :
    ∃ e ∈ es, f.range = (move e.startByte, move e.endByte) := by
  have hmem : f.range ∈ es.map fun e => (move e.startByte, move e.endByte) := by
    rw [← h]
    exact List.mem_map_of_mem hf
  obtain ⟨e, he, heq⟩ := List.mem_map.1 hmem
  exact ⟨e, he, heq.symm⟩

theorem inside_iff_of_range (hmove : StrictMono move) {a b a' b' : Edit}
    (ha : a'.range = (move a.startByte, move a.endByte))
    (hb : b'.range = (move b.startByte, move b.endByte)) : b'.Inside a' ↔ b.Inside a := by
  obtain ⟨has, hae⟩ := Prod.mk.inj ha
  obtain ⟨hbs, hbe⟩ := Prod.mk.inj hb
  simp only [Inside, has, hae, hbs, hbe, hmove.lt_iff_lt, hmove.le_iff_le]

/-- Moved edits nest as deep as before. -/
theorem exists_deep_moved (hmove : StrictMono move) (h : Moved move es fs) (n : Nat) :
    (∃ f, Deep fs n f) ↔ ∃ e, Deep es n e := by
  constructor
  · rintro ⟨f, hdeep⟩
    obtain ⟨e, he, hef⟩ := h.exists_left hdeep.mem
    exact ⟨e, hdeep.transfer (R := fun f e => f.range = (move e.startByte, move e.endByte))
      (fun _ hf => h.exists_left hf) (fun ha hb => (inside_iff_of_range hmove ha hb).1) he hef⟩
  · rintro ⟨e, hdeep⟩
    obtain ⟨f, hf, hef⟩ := h.exists_right hdeep.mem
    exact ⟨f, hdeep.transfer (R := fun e f => f.range = (move e.startByte, move e.endByte))
      (fun _ he => h.exists_right he) (fun ha hb => (inside_iff_of_range hmove ha hb).2) hf hef⟩

theorem Nested.moved (hmove : StrictMono move) (h : Moved move es fs) (hnested : Nested es) :
    Nested fs := by
  have hranges : (es.map fun e => (move e.startByte, move e.endByte)).Pairwise
      fun p q => Nest ⟨p.1, p.2, ""⟩ ⟨q.1, q.2, ""⟩ := by
    refine List.pairwise_map.2 (hnested.imp fun {a b} hab => ?_)
    simpa only [Nest, Precedes, Inside, hmove.lt_iff_lt, hmove.le_iff_le] using hab
  rw [← h, List.pairwise_map] at hranges
  exact hranges

end Moved

/-! ## Edits that are left out -/

/-- The edits that are not applied to a buffer. -/
def leftOut (content : Bytes) (edits : List Edit) : List Edit :=
  (edits.zipIdx.filter fun a => decide (a ∉ used content edits)).map (·.1)

section LeftOut

variable {content : Bytes} {edits : List Edit}

theorem mem_leftOut {e : Edit} :
    e ∈ leftOut content edits ↔ ∃ i, (e, i) ∈ edits.zipIdx ∧ (e, i) ∉ used content edits := by
  simp [leftOut]

theorem leftOut_sublist : (leftOut content edits).Sublist edits := by
  have h := (List.filter_sublist (l := edits.zipIdx)
    (p := fun a => decide (a ∉ used content edits))).map (·.1)
  rwa [List.zipIdx_map_fst] at h

theorem mem_used_or_mem_leftOut (content : Bytes) {e : Edit} (he : e ∈ edits) :
    e ∈ (used content edits).map (·.1) ∨ e ∈ leftOut content edits := by
  rw [← List.zipIdx_map_fst 0 edits] at he
  obtain ⟨⟨f, i⟩, hmem, rfl⟩ := List.mem_map.1 he
  by_cases hused : (f, i) ∈ used content edits
  · exact .inl (List.mem_map_of_mem hused)
  · exact .inr (mem_leftOut.2 ⟨i, hmem, hused⟩)

/-- Edits that are applied lie apart. -/
theorem not_inside_of_mem_used {a b : Edit × Nat} (ha : a ∈ used content edits)
    (hb : b ∈ used content edits) : ¬a.1.Inside b.1 := by
  intro h
  have hne : a.1 ≠ b.1 := fun heq => Int.lt_irrefl _ (heq ▸ h.1)
  exact h.not_precedes (precedes_or_precedes (List.pairwise_map.2 (pairwise_used content edits))
    (List.mem_map_of_mem ha) (List.mem_map_of_mem hb) hne)

theorem mem_leftOut_of_inside_used {e f : Edit} (he : e ∈ (used content edits).map (·.1))
    (hf : f ∈ edits) (h : f.Inside e) : f ∈ leftOut content edits := by
  rcases mem_used_or_mem_leftOut content hf with hused | hleft
  · obtain ⟨a, ha, rfl⟩ := List.mem_map.1 he
    obtain ⟨b, hb, rfl⟩ := List.mem_map.1 hused
    exact absurd h (not_inside_of_mem_used hb ha)
  · exact hleft

/-- Of the levels in an edit that is left out, at most one is applied. -/
theorem deep_leftOut {n : Nat} : ∀ {e : Edit}, e ∈ leftOut content edits →
    Deep edits (n + 1) e → Deep (leftOut content edits) n e := by
  induction n with
  | zero => exact fun he _ => he
  | succ n ih =>
    rintro e he ⟨-, f, hfe, hdeep⟩
    rcases mem_used_or_mem_leftOut content hdeep.mem with hused | hleft
    · obtain ⟨-, g, hgf, hdeep⟩ := hdeep
      exact ⟨he, g, hgf.trans hfe,
        hdeep.of_inside (fun _ => mem_leftOut_of_inside_used hused) hgf⟩
    · exact ⟨he, f, hfe, ih hleft hdeep⟩

variable (hnested : Nested edits) (hin : ∀ e ∈ edits, e.InBounds content.length)
include hnested hin

/-- An edit is left out only for one inside it that is applied. -/
theorem exists_used_inside {e : Edit} (he : e ∈ leftOut content edits) :
    ∃ f ∈ (used content edits).map (·.1), f.Inside e := by
  obtain ⟨i, hmem, hnot⟩ := mem_leftOut.1 he
  have hedit : e ∈ edits := leftOut_sublist.mem he
  rcases conflict_of_not_mem_used hmem hnot with hout | ⟨⟨f, j⟩, hused, hbefore, hconflicts⟩
  · exact absurd (hin e hedit) hout
  have hmem' := (mem_used hused).1
  have hf : f ∈ edits := List.fst_mem_of_mem_zipIdx hmem'
  -- No edit stands at two positions, and one of these is applied and one is not.
  have hne : e ≠ f := by
    rintro rfl
    have hij : i = j := by
      rw [List.mk_mem_zipIdx_iff_getElem?] at hmem hmem'
      obtain ⟨hi, hei⟩ := List.getElem?_eq_some_iff.1 hmem
      obtain ⟨hj, hej⟩ := List.getElem?_eq_some_iff.1 hmem'
      have hnodup : edits.Nodup := hnested.imp Nest.ne
      exact hnodup.getElem_inj_iff.1 (hei.trans hej.symm)
    exact hnot (hij ▸ hused)
  have hstart : e.startByte ≤ f.startByte := by
    rcases hbefore with hlt | ⟨heq, -⟩
    · exact Int.le_of_lt hlt
    · exact Int.le_of_eq heq
  exact ⟨f, List.mem_map_of_mem hused,
    (hnested.forall hedit hf hne).inside_of_conflicts hstart hconflicts⟩

/-- Of edits that nest, some are applied. -/
theorem used_ne_nil (hne : edits ≠ []) : used content edits ≠ [] := by
  obtain ⟨e, he⟩ := List.exists_mem_of_ne_nil _ hne
  rcases mem_used_or_mem_leftOut content he with hused | hleft
  · obtain ⟨a, ha, -⟩ := List.mem_map.1 hused
    exact List.ne_nil_of_mem ha
  · obtain ⟨f, hused, -⟩ := exists_used_inside hnested hin hleft
    obtain ⟨a, ha, -⟩ := List.mem_map.1 hused
    exact List.ne_nil_of_mem ha

/-- **Just the innermost edits are applied.** -/
theorem mem_used_iff {e : Edit} (he : e ∈ edits) :
    e ∈ (used content edits).map (·.1) ↔ ∀ f ∈ edits, ¬f.Inside e := by
  constructor
  · intro hused f hf hfe
    -- What is inside is left out, and so something inside of that is applied.
    obtain ⟨g, hg, hgf⟩ :=
      exists_used_inside hnested hin (mem_leftOut_of_inside_used hused hf hfe)
    obtain ⟨a, ha, rfl⟩ := List.mem_map.1 hused
    obtain ⟨b, hb, rfl⟩ := List.mem_map.1 hg
    exact not_inside_of_mem_used hb ha (hgf.trans hfe)
  · intro hinnermost
    rcases mem_used_or_mem_leftOut content he with hused | hleft
    · exact hused
    · obtain ⟨f, hf, hfe⟩ := exists_used_inside hnested hin hleft
      obtain ⟨a, ha, rfl⟩ := List.mem_map.1 hf
      exact absurd hfe (hinnermost a.1 (List.fst_mem_of_mem_zipIdx (mem_used ha).1))

/-- Below the levels that are left out, there is one that is applied. -/
theorem deep_of_leftOut : ∀ {n : Nat} {e : Edit},
    Deep (leftOut content edits) n e → Deep edits (n + 1) e
  | 0, e, he => by
    obtain ⟨f, hused, hfe⟩ := exists_used_inside hnested hin he
    obtain ⟨a, ha, rfl⟩ := List.mem_map.1 hused
    have hf : a.1 ∈ edits := List.fst_mem_of_mem_zipIdx (mem_used ha).1
    exact ⟨leftOut_sublist.mem he, a.1, hfe, hf⟩
  | _ + 1, _, ⟨he, f, hfe, hdeep⟩ => ⟨leftOut_sublist.mem he, f, hfe, deep_of_leftOut hdeep⟩

/-- What is left out nests one level less deep. -/
theorem exists_deep_leftOut (n : Nat) :
    (∃ e, Deep (leftOut content edits) n e) ↔ ∃ e, Deep edits (n + 1) e := by
  constructor
  · rintro ⟨e, hdeep⟩
    exact ⟨e, deep_of_leftOut hnested hin hdeep⟩
  · rintro ⟨e, hdeep⟩
    rcases mem_used_or_mem_leftOut content hdeep.mem with hused | hleft
    · obtain ⟨-, f, hfe, hdeep⟩ := hdeep
      exact ⟨f, hdeep.of_inside (fun _ => mem_leftOut_of_inside_used hused) hfe⟩
    · exact ⟨e, deep_leftOut hleft hdeep⟩

end LeftOut

/-! ## Edits in one row, each inside the ones before -/

section Row

variable {content : Bytes} {es : List Edit} {e : Edit}
variable (hin : e.InBounds content.length) (hinside : ∀ f ∈ es, e.Inside f)
include hin hinside

/-- Only the innermost edit is applied. -/
theorem used_concat : used content (es ++ [e]) = [(e, es.length)] := by
  have hcases : ∀ a ∈ used content (es ++ [e]), a = (e, es.length) ∨ a.1 ∈ es := by
    intro a ha
    have hzip := (mem_used ha).1
    rw [List.zipIdx_append, List.mem_append] at hzip
    rcases hzip with h | h
    · exact .inr (List.fst_mem_of_mem_zipIdx h)
    · exact .inl (by simpa using h)
  have hlast : (e, es.length) ∈ used content (es ++ [e]) := by
    by_contra hnot
    have hzip : (e, es.length) ∈ (es ++ [e]).zipIdx := by simp [List.zipIdx_append]
    rcases conflict_of_not_mem_used hzip hnot with hout | ⟨b, hused, hbefore, -⟩
    · exact hout hin
    rcases hcases b hused with rfl | hb
    · exact hnot hused
    -- What is looked at before the innermost edit begins no earlier.
    have hstart := (hinside b.1 hb).1
    unfold LookedAtBefore at hbefore
    simp only at hbefore
    omega
  have hall : ∀ a ∈ used content (es ++ [e]), a = (e, es.length) := fun a ha =>
    (hcases a ha).resolve_right fun h => not_inside_of_mem_used hlast ha (hinside _ h)
  have hnodup : (used content (es ++ [e])).Nodup :=
    (pairwise_used content (es ++ [e])).imp fun h heq => by
      rw [heq] at h
      exact Int.lt_irrefl _ h.1
  rw [List.eq_replicate_of_mem hall, List.nodup_replicate] at hnodup
  have hpos := List.length_pos_of_mem hlast
  rw [List.eq_replicate_of_mem hall, Nat.le_antisymm hnodup hpos]
  rfl

theorem apply_concat : apply content (es ++ [e]) = ⟨e.splice content, 1, es.length⟩ := by
  have hsplice : e.splice (weave content 0 []) = weave content 0 [e] := splice_weave hin nofun
  rw [apply_eq, used_concat hin hinside]
  simpa [weave] using hsplice.symm

theorem leftOut_concat : leftOut content (es ++ [e]) = es := by
  have hes : es.zipIdx.filter (fun a => decide (a ∉ [(e, es.length)])) = es.zipIdx := by
    refine List.filter_eq_self.2 fun a ha => ?_
    have := (List.mem_zipIdx ha).2.1
    simp only [List.mem_singleton, decide_eq_true_eq]
    rintro rfl
    omega
  rw [leftOut, used_concat hin hinside, List.zipIdx_append, List.filter_append, hes]
  simp

end Row

end Edit

end YieldLint
