/-
Applying edits from the back is one splice.

`taken` are the edits that `Edit.apply` takes, read off the row in which it looks
at them; `weave` is the buffer with their ranges replaced all at once, the gaps
between them as they were. What is applied one by one to a buffer that is already
cut is the same as `weave` of the buffer at the start (`foldl_splice`), because an
edit that is taken ends before everything cut so far.

An edit that is left out does not fit the buffer, or stands in the way of one that
was taken before it (`not_taken`).
-/
import YieldLint.Edit

namespace YieldLint

namespace Edit

/-! ## The ranges of edits -/

/-- The range of an edit lies in a buffer of some length. -/
def InBounds (e : Edit) (length : Nat) : Prop :=
  0 ≤ e.startByte ∧ e.startByte ≤ e.endByte ∧ e.endByte ≤ length

theorem fits_iff (e : Edit) (length : Nat) : e.fits length = true ↔ e.InBounds length := by
  simp only [fits, decide_eq_true_eq, InBounds]
  omega

/-- Begins and ends before another edit. -/
def Precedes (a b : Edit) : Prop := a.startByte < b.startByte ∧ a.endByte ≤ b.startByte

/-- Begins where another edit begins, or overlaps it. -/
def Conflicts (a b : Edit) : Prop :=
  a.startByte = b.startByte ∨ a.startByte < b.endByte ∧ b.startByte < a.endByte

/-! ## Splicing at once -/

/-- The bytes of a buffer from one place to another. -/
def gap (content : Bytes) (start stop : Nat) : Bytes := (content.take stop).drop start

/-- A buffer from a place on with ranges replaced, the first of them first. -/
def weave (content : Bytes) (start : Nat) : List Edit → Bytes
  | [] => content.drop start
  | e :: es =>
    gap content start e.startByte.toNat ++ Utf8.encode e.text ++
      weave content e.endByte.toNat es

theorem gap_append_drop (content : Bytes) {a b : Nat} (hab : a ≤ b) :
    gap content a b ++ content.drop b = content.drop a := by
  have h : content.drop b = (content.drop a).drop (b - a) := by
    rw [List.drop_drop, Nat.add_sub_cancel' hab]
  rw [gap, List.drop_take, h, List.take_append_drop]

theorem gap_append_gap (content : Bytes) {a b c : Nat} (hab : a ≤ b) (hbc : b ≤ c) :
    gap content a b ++ gap content b c = gap content a c := by
  have h := gap_append_drop (content.take c) hab
  simp only [gap, List.take_take, Nat.min_eq_left hbc] at h
  exact h

/-- What lies before the first range comes first. -/
theorem gap_append_weave (content : Bytes) {a b : Nat} (hab : a ≤ b) {es : List Edit}
    (h : ∀ e ∈ es, (b : Int) ≤ e.startByte) :
    gap content a b ++ weave content b es = weave content a es := by
  cases es with
  | nil => exact gap_append_drop content hab
  | cons e es =>
    have hb : b ≤ e.startByte.toNat := by
      have := h e (by simp)
      omega
    rw [weave, weave, ← List.append_assoc, ← List.append_assoc, gap_append_gap content hab hb]

theorem InBounds.toNat_le {e : Edit} {length : Nat} (h : e.InBounds length) :
    e.startByte.toNat ≤ e.endByte.toNat ∧ e.endByte.toNat ≤ length := by
  obtain ⟨h1, h2, h3⟩ := h
  omega

theorem InBounds.toNat_endByte_le {e f : Edit} {length : Nat} (h : e.InBounds length)
    (hbehind : e.endByte ≤ f.startByte) : (e.endByte.toNat : Int) ≤ f.startByte := by
  obtain ⟨h1, h2, -⟩ := h
  omega

/-- Cutting a range out in front of all that is cut already is one more range. -/
theorem splice_weave {content : Bytes} {e : Edit} {es : List Edit}
    (he : e.InBounds content.length) (h : ∀ f ∈ es, e.endByte ≤ f.startByte) :
    e.splice (weave content 0 es) = weave content 0 (e :: es) := by
  obtain ⟨hse, hel⟩ := he.toNat_le
  have hstart : ∀ f ∈ es, (e.endByte.toNat : Int) ≤ f.startByte := fun f hf =>
    he.toNat_endByte_le (h f hf)
  have hlen : (gap content 0 e.endByte.toNat).length = e.endByte.toNat := by
    simp [gap, hel]
  rw [splice, ← gap_append_weave content (Nat.zero_le _) hstart]
  have htake : (gap content 0 e.endByte.toNat ++ weave content e.endByte.toNat es).take
      e.startByte.toNat = gap content 0 e.startByte.toNat := by
    rw [List.take_append_of_le_length (by omega)]
    simp [gap, List.take_take, Nat.min_eq_left hse]
  have hdrop : (gap content 0 e.endByte.toNat ++ weave content e.endByte.toNat es).drop
      e.endByte.toNat = weave content e.endByte.toNat es := List.drop_left' hlen
  rw [htake, hdrop, weave]

/-- Cutting ranges one by one from the back is cutting them all at once. -/
theorem foldl_splice (content : Bytes) : ∀ (es cut : List Edit),
    (∀ e ∈ es, e.InBounds content.length) → (es.reverse ++ cut).Pairwise Precedes →
    es.foldl (fun c e => e.splice c) (weave content 0 cut) =
      weave content 0 (es.reverse ++ cut)
  | [], _, _, _ => rfl
  | e :: es, cut, hin, hsorted => by
    rw [List.reverse_cons, List.append_assoc, List.singleton_append] at hsorted ⊢
    have hcut : ∀ f ∈ cut, e.Precedes f :=
      (List.pairwise_cons.1 (List.pairwise_append.1 hsorted).2.1).1
    rw [List.foldl_cons, splice_weave (hin e (by simp)) fun f hf => (hcut f hf).2]
    exact foldl_splice content es (e :: cut) (fun f hf => hin f (by simp [hf])) hsorted

/-! ## The edits that are taken -/

section Taken

variable {α : Type} (edit : α → Edit) (length : Nat)

/-- The edits that are taken of a row, given the last one taken before. -/
def taken : Option α → List α → List α
  | _, [] => []
  | last, a :: rest =>
    if (edit a).fits length && (edit a).clears (last.map fun b => (edit b).startByte) then
      a :: taken (some a) rest
    else taken last rest

theorem taken_sublist : ∀ (last : Option α) (row : List α), (taken edit length last row).Sublist row
  | _, [] => .slnil
  | last, a :: rest => by
    rw [taken]
    split
    · exact (taken_sublist _ rest).cons_cons a
    · exact (taken_sublist _ rest).cons a

/-- Taking edits step by step takes these, and counts them and the others. -/
theorem foldl_step (row : List α) : ∀ (last : Option α) (p : Progress),
    p.lastStart = last.map (fun b => (edit b).startByte) →
    let q := (row.map edit).foldl (step length) p
    q.content =
      ((taken edit length last row).map edit).foldl (fun c e => e.splice c) p.content ∧
    q.applied = p.applied + (taken edit length last row).length ∧
    q.skipped + (taken edit length last row).length = p.skipped + row.length := by
  induction row with
  | nil => intro last p _; simp [taken]
  | cons a rest ih =>
    intro last p hlast
    simp only [List.map_cons, List.foldl_cons, taken, step, hlast]
    split
    · obtain ⟨hc, ha, hs⟩ := ih (some a)
        { content := (edit a).splice p.content, lastStart := some (edit a).startByte,
          applied := p.applied + 1, skipped := p.skipped } rfl
      simp only [List.map_cons, List.foldl_cons, List.length_cons]
      simp only at ha hs
      exact ⟨hc, by omega, by omega⟩
    · obtain ⟨hc, ha, hs⟩ := ih last { p with skipped := p.skipped + 1 } hlast
      simp only [hlast] at hc ha hs
      exact ⟨hc, ha, by simp only [List.length_cons]; omega⟩

/-- What is taken fits, and lies clear of what was taken before. -/
theorem taken_spec (row : List α) : ∀ (last : Option α),
    (∀ a ∈ taken edit length last row, (edit a).InBounds length ∧
      ∀ b ∈ last, (edit a).Precedes (edit b)) ∧
    (taken edit length last row).Pairwise fun a b => (edit b).Precedes (edit a) := by
  induction row with
  | nil => intro last; simp [taken]
  | cons a rest ih =>
    intro last
    rw [taken]
    split
    · rename_i h
      simp only [Bool.and_eq_true, fits_iff] at h
      obtain ⟨hin, hclear⟩ := h
      have hlast : ∀ b ∈ last, (edit a).Precedes (edit b) := by
        intro b hb
        obtain rfl : last = some b := hb
        simp only [Option.map_some, clears, decide_eq_true_eq] at hclear
        have := hin.2.1
        exact ⟨by omega, hclear.1⟩
      obtain ⟨hall, hsorted⟩ := ih (some a)
      refine ⟨fun c hc => ?_, List.pairwise_cons.2 ⟨fun c hc => (hall c hc).2 a rfl, hsorted⟩⟩
      rcases List.mem_cons.1 hc with rfl | hc
      · exact ⟨hin, hlast⟩
      · refine ⟨(hall c hc).1, fun b hb => ?_⟩
        have hca := (hall c hc).2 a rfl
        have hab := hlast b hb
        have := hin.2.1
        exact ⟨Int.lt_trans hca.1 hab.1, by have := hca.2; have := hab.1; omega⟩
    · exact ih last

/-- What is not taken does not fit, or conflicts with an edit taken before it. -/
theorem not_taken {before : α → α → Prop}
    (hstart : ∀ a b, before a b → (edit b).startByte ≤ (edit a).startByte) (row : List α) :
    ∀ last : Option α, row.Pairwise before →
    (∀ b ∈ last, (edit b).InBounds length ∧ ∀ a ∈ row, before b a) →
    ∀ a ∈ row, a ∉ taken edit length last row → ¬(edit a).InBounds length ∨
      ∃ b ∈ last.toList ++ taken edit length last row,
        before b a ∧ (edit a).Conflicts (edit b) := by
  induction row with
  | nil => intro last _ _ a ha; simp at ha
  | cons c rest ih =>
    intro last hsorted hlast a ha hnot
    obtain ⟨hc, hrest⟩ := List.pairwise_cons.1 hsorted
    rw [taken] at hnot ⊢
    split at hnot
    · rename_i htaken
      rw [if_pos htaken]
      simp only [Bool.and_eq_true, fits_iff] at htaken
      rcases List.mem_cons.1 ha with rfl | ha
      · simp at hnot
      have hc' : ∀ b ∈ some c, (edit b).InBounds length ∧ ∀ x ∈ rest, before b x := by
        intro b hb
        obtain rfl : c = b := by simpa using hb
        exact ⟨htaken.1, hc⟩
      have hmem := ih (some c) hrest hc' a ha fun h => hnot (List.mem_cons_of_mem _ h)
      refine hmem.imp_right fun ⟨b, hb, hconf⟩ => ⟨b, ?_, hconf⟩
      exact List.mem_append_right _ (by simpa using hb)
    · rename_i htaken
      rw [if_neg htaken]
      rcases List.mem_cons.1 ha with rfl | ha
      · -- The edit itself: it fits, so the last one taken is in its way.
        by_cases hin : (edit a).InBounds length
        · cases last with
          | none => simp [fits_iff, hin, clears] at htaken
          | some b =>
            obtain ⟨hbin, hb⟩ := hlast b rfl
            have hle := hstart b a (hb a (by simp))
            simp only [fits_iff, hin, clears, Option.map_some, Bool.and_eq_true, true_and,
              decide_eq_true_eq] at htaken
            refine .inr ⟨b, by simp, hb a (by simp), ?_⟩
            have := hbin.2.1
            unfold Conflicts
            omega
        · exact .inl hin
      · exact ih last hrest
          (fun b hb => ⟨(hlast b hb).1, fun x hx => (hlast b hb).2 x (by simp [hx])⟩) a ha hnot

end Taken

/-! ## Edits in the order in which they are taken -/

/-- Of two edits with their positions, the first is looked at first: from the back
by start and end, equal ranges by position. -/
def LookedAtBefore (a b : Edit × Nat) : Prop :=
  b.1.startByte < a.1.startByte ∨
    b.1.startByte = a.1.startByte ∧
      (b.1.endByte < a.1.endByte ∨ b.1.endByte = a.1.endByte ∧ a.2 < b.2)

/-- The edits with their positions, in the order in which they are looked at. -/
def row (edits : List Edit) : List (Edit × Nat) :=
  edits.zipIdx.mergeSort (List.zipIdxLE comesFirst)

theorem map_fst_row (edits : List Edit) : (row edits).map (·.1) = fromBack edits :=
  List.mergeSort_zipIdx

theorem mem_row {edits : List Edit} {a : Edit × Nat} : a ∈ row edits ↔ a ∈ edits.zipIdx :=
  List.mem_mergeSort

theorem length_row (edits : List Edit) : (row edits).length = edits.length := by
  rw [row, List.length_mergeSort, List.length_zipIdx]

theorem comesFirst_trans (a b c : Edit) (hab : comesFirst a b = true)
    (hbc : comesFirst b c = true) : comesFirst a c = true := by
  simp only [comesFirst, decide_eq_true_eq] at *
  omega

theorem comesFirst_total (a b : Edit) : (comesFirst a b || comesFirst b a) = true := by
  simp only [comesFirst, Bool.or_eq_true, decide_eq_true_eq]
  omega

theorem pairwise_row (edits : List Edit) : (row edits).Pairwise LookedAtBefore := by
  have hsorted : (row edits).Pairwise fun a b => List.zipIdxLE comesFirst a b = true :=
    List.pairwise_mergeSort (List.zipIdxLE_trans comesFirst_trans)
      (List.zipIdxLE_total comesFirst_total) _
  have hperm : ((row edits).map (·.2)).Perm (edits.zipIdx.map (·.2)) :=
    (List.mergeSort_perm _ _).map _
  have hnodup : ((row edits).map (·.2)).Nodup := by
    rw [hperm.nodup_iff, List.zipIdx_map_snd]
    exact List.nodup_range'
  refine (hsorted.and (List.pairwise_map.1 hnodup)).imp fun {a b} h => ?_
  obtain ⟨hle, hne⟩ := h
  simp only [List.zipIdxLE, comesFirst, decide_eq_true_eq] at hle
  unfold LookedAtBefore
  split at hle
  · split at hle
    · simp only [decide_eq_true_eq] at hle
      omega
    · omega
  · simp at hle

/-- The edits that are applied, with their positions, from the front. -/
def used (content : Bytes) (edits : List Edit) : List (Edit × Nat) :=
  (taken Prod.fst content.length none (row edits)).reverse

theorem mem_used {content : Bytes} {edits : List Edit} {a : Edit × Nat}
    (h : a ∈ used content edits) : a ∈ edits.zipIdx ∧ a.1.InBounds content.length := by
  rw [used, List.mem_reverse] at h
  exact ⟨mem_row.1 ((taken_sublist _ _ _ _).mem h), ((taken_spec _ _ _ none).1 a h).1⟩

theorem length_used_le (content : Bytes) (edits : List Edit) :
    (used content edits).length ≤ edits.length := by
  rw [used, List.length_reverse, ← length_row edits]
  exact (taken_sublist _ _ _ _).length_le

theorem pairwise_used (content : Bytes) (edits : List Edit) :
    (used content edits).Pairwise fun a b => a.1.Precedes b.1 :=
  List.pairwise_reverse.2 (taken_spec _ _ _ none).2

/-- What is left out does not fit, or stands in the way of an edit looked at before. -/
theorem conflict_of_not_mem_used {content : Bytes} {edits : List Edit} {a : Edit × Nat}
    (ha : a ∈ edits.zipIdx) (hnot : a ∉ used content edits) :
    ¬a.1.InBounds content.length ∨
      ∃ b ∈ used content edits, LookedAtBefore b a ∧ a.1.Conflicts b.1 := by
  have hstart : ∀ a b : Edit × Nat, LookedAtBefore a b → b.1.startByte ≤ a.1.startByte := by
    intro a b h
    unfold LookedAtBefore at h
    omega
  simp only [used, List.mem_reverse] at hnot ⊢
  have h := not_taken Prod.fst content.length hstart (row edits) none (pairwise_row edits)
    (by simp) a (mem_row.2 ha) hnot
  simpa using h

/-- Applying edits is one splice of those that are used. -/
theorem apply_eq (content : Bytes) (edits : List Edit) : apply content edits =
    { content := weave content 0 ((used content edits).map (·.1))
      applied := (used content edits).length
      skipped := edits.length - (used content edits).length } := by
  obtain ⟨hall, hsorted⟩ := taken_spec Prod.fst content.length (row edits) none
  have hsplice := foldl_splice content
    ((taken Prod.fst content.length none (row edits)).map (·.1)) []
    (fun e he => by
      obtain ⟨a, ha, rfl⟩ := List.mem_map.1 he
      exact (hall a ha).1)
    (by simpa [List.pairwise_reverse, List.pairwise_map] using hsorted)
  obtain ⟨hcontent, happlied, hskipped⟩ := foldl_step Prod.fst content.length (row edits) none
    { content, lastStart := none, applied := 0, skipped := 0 } rfl
  rw [map_fst_row] at hcontent happlied hskipped
  rw [length_row] at hskipped
  simp only [apply, Edited.mk.injEq, used, List.map_reverse, List.length_reverse]
  refine ⟨?_, by simpa using happlied, ?_⟩
  · rw [hcontent]
    simpa [weave] using hsplice
  · simp only [Nat.zero_add] at hskipped
    exact Nat.eq_sub_of_add_eq hskipped

/-- **Applying edits is one splice.** Some of the edits are taken: they fit the
buffer, they begin at different bytes and each ends before the next begins, and
the result is the buffer with their ranges replaced all at once. Every other edit
does not fit, or conflicts with one that is taken and looked at before it. -/
theorem apply_eq_weave (content : Bytes) (edits : List Edit) :
    ∃ used : List (Edit × Nat),
      EditRequest.apply content (edits.map .ofEdit) = .ok (apply content edits) ∧
      apply content edits =
        { content := weave content 0 (used.map (·.1))
          applied := used.length
          skipped := edits.length - used.length } ∧
      used.length ≤ edits.length ∧
      (∀ a ∈ used, a ∈ edits.zipIdx ∧ a.1.InBounds content.length) ∧
      used.Pairwise (fun a b => a.1.Precedes b.1) ∧
      ∀ a ∈ edits.zipIdx, a ∉ used → ¬a.1.InBounds content.length ∨
        ∃ b ∈ used, LookedAtBefore b a ∧ a.1.Conflicts b.1 := by
  have hrequests : EditRequest.apply content (edits.map .ofEdit) = .ok (apply content edits) := by
    rw [EditRequest.apply, EditRequest.edits_map_ofEdit]
    rfl
  exact ⟨used content edits, hrequests, apply_eq content edits, length_used_le content edits,
    fun a ha => mem_used ha, pairwise_used content edits,
    fun a ha hnot => conflict_of_not_mem_used ha hnot⟩

end Edit

end YieldLint
