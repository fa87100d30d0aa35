/-
Rows of which the second has some more items.

`Interspersed` is the relation of two rows of which the second has an item for each of the
first, in the same order, and extra items among them. What a row is asked past its extra
items has the same answer in both: the first item that passes a test (`Interspersed.find?`),
the items that do (`Interspersed.forall₂_filter`), whether there is one (`Interspersed.any`);
and steps that do nothing at extra items run alike (`Interspersed.foldl`).
-/
import Mathlib.Data.List.Forall2

namespace YieldLint

/-! ## Options and rows that are related item by item -/

section Related

variable {α β γ : Type} {r : α → β → Prop} {x : Option α} {y : Option β} {as : List α}
  {bs : List β}

theorem isSome_eq_of_rel (h : Option.Rel r x y) : y.isSome = x.isSome := by
  cases h with
  | none => rfl
  | some _ => rfl

theorem any_eq_of_rel (h : Option.Rel r x y) {p : α → Bool} {p' : β → Bool}
    (hnext : ∀ a ∈ x, ∀ b, r a b → p' b = p a) : y.any p' = x.any p := by
  cases h with
  | none => rfl
  | some related => exact hnext _ rfl _ related

theorem map_eq_of_rel (h : Option.Rel r x y) {f : α → γ} {g : β → γ}
    (hnext : ∀ a b, r a b → g b = f a) : y.map g = x.map f := by
  cases h with
  | none => rfl
  | some related => rw [Option.map_some, Option.map_some, hnext _ _ related]

theorem bind_eq_of_rel (h : Option.Rel r x y) {f : α → Option γ} {g : β → Option γ}
    (hnext : ∀ a b, r a b → g b = f a) : y.bind g = x.bind f := by
  cases h with
  | none => rfl
  | some related => exact hnext _ _ related

theorem rel_imp {r' : α → β → Prop} (h : Option.Rel r x y)
    (hnext : ∀ a ∈ x, ∀ b, r a b → r' a b) : Option.Rel r' x y := by
  cases h with
  | none => exact .none
  | some related => exact .some (hnext _ rfl _ related)

theorem rel_bind {δ : Type} {q : γ → δ → Prop} (h : Option.Rel r x y) {f : α → Option γ}
    {g : β → Option δ} (hnext : ∀ a, ∀ b ∈ y, r a b → Option.Rel q (f a) (g b)) :
    Option.Rel q (x.bind f) (y.bind g) := by
  cases h with
  | none => exact .none
  | some related => exact hnext _ _ rfl related

theorem rel_head? (h : List.Forall₂ r as bs) : Option.Rel r as.head? bs.head? := by
  cases h with
  | nil => exact .none
  | cons related _ => exact .some related

theorem rel_filter (h : List.Forall₂ r as bs) {p : α → Bool} {p' : β → Bool}
    (hnext : ∀ a b, r a b → p' b = p a) : List.Forall₂ r (as.filter p) (bs.filter p') :=
  List.rel_filter (fun a b hab => by dsimp only; rw [hnext a b hab]) h

theorem rel_find? (h : List.Forall₂ r as bs) {p : α → Bool} {p' : β → Bool}
    (hnext : ∀ a b, r a b → p' b = p a) : Option.Rel r (as.find? p) (bs.find? p') := by
  rw [← List.head?_filter, ← List.head?_filter]
  exact rel_head? (rel_filter h hnext)

/-- Items of two rows at the same place. -/
theorem forall₂_zip (h : List.Forall₂ r as bs) :
    List.Forall₂ (fun a b => r a b ∧ (a, b) ∈ as.zip bs) as bs := by
  rw [List.forall₂_iff_zip] at h ⊢
  exact ⟨h.1, fun hmem => ⟨h.2 hmem, hmem⟩⟩

theorem map_eq_of_forall₂ (h : List.Forall₂ r as bs) {f : α → γ} {g : β → γ}
    (hnext : ∀ a b, r a b → g b = f a) : bs.map g = as.map f := by
  induction h with
  | nil => rfl
  | cons related _ ih => rw [List.map_cons, List.map_cons, hnext _ _ related, ih]

theorem filterMap_eq_of_forall₂ (h : List.Forall₂ r as bs) {f : α → Option γ}
    {g : β → Option γ} (hnext : ∀ a b, r a b → g b = f a) : bs.filterMap g = as.filterMap f := by
  induction h with
  | nil => rfl
  | cons related _ ih => rw [List.filterMap_cons, List.filterMap_cons, hnext _ _ related, ih]

end Related

/-! ## Rows with items put in -/

/-- The second row has an item for each of the first, in the same order, and some extra
items among them. (`List.SublistForall₂` does not say what these are.) -/
inductive Interspersed {α β : Type} (r : α → β → Prop) (extra : β → Prop) :
    List α → List β → Prop
  | nil : Interspersed r extra [] []
  | keep {a : α} {b : β} {as : List α} {bs : List β} (related : r a b)
      (rest : Interspersed r extra as bs) : Interspersed r extra (a :: as) (b :: bs)
  | insert {b : β} {as : List α} {bs : List β} (new : extra b)
      (rest : Interspersed r extra as bs) : Interspersed r extra as (b :: bs)

namespace Interspersed

variable {α β γ δ : Type} {r : α → β → Prop} {extra : β → Prop} {q : γ → δ → Prop}
  {extra' : δ → Prop} {as as' : List α} {bs bs' : List β}

theorem of_extra : ∀ {bs : List β}, (∀ b ∈ bs, extra b) → Interspersed r extra [] bs
  | [], _ => .nil
  | _ :: _, h => .insert (h _ List.mem_cons_self)
      (of_extra fun b hb => h b (List.mem_cons_of_mem _ hb))

theorem of_forall₂ (h : List.Forall₂ r as bs) : Interspersed r extra as bs := by
  induction h with
  | nil => exact .nil
  | cons related _ ih => exact .keep related ih

theorem imp {r' : α → β → Prop} {extra' : β → Prop} (h : Interspersed r extra as bs)
    (hkeep : ∀ a b, r a b → r' a b) (hnew : ∀ b, extra b → extra' b) :
    Interspersed r' extra' as bs := by
  induction h with
  | nil => exact .nil
  | keep related _ ih => exact .keep (hkeep _ _ related) ih
  | insert new _ ih => exact .insert (hnew _ new) ih

/-- The items, with the rows that they are in. -/
theorem attach (h : Interspersed r extra as bs) :
    Interspersed (fun a b => r a b ∧ a ∈ as ∧ b ∈ bs) (fun b => extra b ∧ b ∈ bs) as bs := by
  induction h with
  | nil => exact .nil
  | keep related _ ih =>
    refine .keep ⟨related, List.mem_cons_self, List.mem_cons_self⟩ ?_
    exact ih.imp
      (fun _ _ ⟨hr, ha, hb⟩ => ⟨hr, List.mem_cons_of_mem _ ha, List.mem_cons_of_mem _ hb⟩)
      fun _ ⟨hnew, hb⟩ => ⟨hnew, List.mem_cons_of_mem _ hb⟩
  | insert new _ ih =>
    refine .insert ⟨new, List.mem_cons_self⟩ ?_
    exact ih.imp (fun _ _ ⟨hr, ha, hb⟩ => ⟨hr, ha, List.mem_cons_of_mem _ hb⟩)
      fun _ ⟨hnew, hb⟩ => ⟨hnew, List.mem_cons_of_mem _ hb⟩

theorem of_map_right {f : δ → β} {ds : List δ} (h : Interspersed r extra as (ds.map f)) :
    Interspersed (fun a d => r a (f d)) (fun d => extra (f d)) as ds := by
  generalize hbs : ds.map f = bs at h
  induction h generalizing ds with
  | nil =>
    rw [List.map_eq_nil_iff.1 hbs]
    exact .nil
  | keep related _ ih =>
    obtain ⟨d, rest, rfl, rfl, hrest⟩ := List.map_eq_cons_iff.1 hbs
    exact .keep related (ih hrest)
  | insert new _ ih =>
    obtain ⟨d, rest, rfl, rfl, hrest⟩ := List.map_eq_cons_iff.1 hbs
    exact .insert new (ih hrest)

theorem append (h : Interspersed r extra as bs) (h' : Interspersed r extra as' bs') :
    Interspersed r extra (as ++ as') (bs ++ bs') := by
  induction h with
  | nil => exact h'
  | keep related _ ih => exact .keep related ih
  | insert new _ ih => exact .insert new ih

theorem map (h : Interspersed r extra as bs) {f : α → γ} {g : β → δ}
    (hkeep : ∀ a b, r a b → q (f a) (g b)) (hnew : ∀ b, extra b → extra' (g b)) :
    Interspersed q extra' (as.map f) (bs.map g) := by
  induction h with
  | nil => exact .nil
  | keep related _ ih => exact .keep (hkeep _ _ related) ih
  | insert new _ ih => exact .insert (hnew _ new) ih

theorem flatMap (h : Interspersed r extra as bs) {f : α → List γ} {g : β → List δ}
    (hkeep : ∀ a ∈ as, ∀ b, r a b → Interspersed q extra' (f a) (g b))
    (hnew : ∀ b, extra b → ∀ d ∈ g b, extra' d) :
    Interspersed q extra' (as.flatMap f) (bs.flatMap g) := by
  induction h with
  | nil => exact .nil
  | keep related _ ih =>
    exact (hkeep _ List.mem_cons_self _ related).append
      (ih fun a ha => hkeep a (List.mem_cons_of_mem _ ha))
  | insert new _ ih => exact (of_extra (hnew _ new)).append (ih hkeep)

/-- Where the items that are kept give the same, all that is given is given still. -/
theorem map_sublist (h : Interspersed r extra as bs) {f : α → γ} {g : β → γ}
    (hkeep : ∀ a b, r a b → g b = f a) : (as.map f).Sublist (bs.map g) := by
  induction h with
  | nil => exact .slnil
  | keep related _ ih =>
    rw [List.map_cons, List.map_cons, hkeep _ _ related]
    exact ih.cons_cons _
  | insert _ _ ih => exact ih.cons _

/-- Extra items that give nothing make no difference to what a row gives. -/
theorem flatMap_eq (h : Interspersed r extra as bs) {f : α → List γ} {g : β → List γ}
    (hkeep : ∀ a b, r a b → g b = f a) (hnew : ∀ b, extra b → g b = []) :
    bs.flatMap g = as.flatMap f := by
  induction h with
  | nil => rfl
  | keep related _ ih => rw [List.flatMap_cons, List.flatMap_cons, hkeep _ _ related, ih]
  | insert new _ ih => rw [List.flatMap_cons, hnew _ new, List.nil_append, ih]

theorem filterMap (h : Interspersed r extra as bs) {f : α → Option γ} {g : β → Option δ}
    (hkeep : ∀ a b, r a b → Option.Rel q (f a) (g b))
    (hnew : ∀ b, extra b → ∀ d ∈ g b, extra' d) :
    Interspersed q extra' (as.filterMap f) (bs.filterMap g) := by
  induction h with
  | nil => exact .nil
  | @keep a b _ _ related _ ih =>
    have hrel := hkeep a b related
    rw [List.filterMap_cons, List.filterMap_cons]
    generalize f a = x at hrel ⊢
    generalize g b = y at hrel ⊢
    cases hrel with
    | none => exact ih
    | some hq => exact .keep hq ih
  | @insert b _ _ new _ ih =>
    have hextra := hnew b new
    rw [List.filterMap_cons]
    generalize g b = y at hextra ⊢
    cases y with
    | none => exact ih
    | some d => exact .insert (hextra d rfl) ih

theorem filter (h : Interspersed r extra as bs) {p : α → Bool} {p' : β → Bool}
    (hkeep : ∀ a b, r a b → p' b = p a) :
    Interspersed r (fun b => extra b ∧ p' b = true) (as.filter p) (bs.filter p') := by
  induction h with
  | nil => exact .nil
  | @keep a b _ _ related _ ih =>
    rw [List.filter_cons, List.filter_cons, hkeep a b related]
    split
    · exact .keep related ih
    · exact ih
  | @insert b _ _ new _ ih =>
    rw [List.filter_cons]
    split
    · rename_i hb
      exact .insert ⟨new, hb⟩ ih
    · exact ih

theorem forall₂ (h : Interspersed r extra as bs) (hnew : ∀ b, ¬extra b) :
    List.Forall₂ r as bs := by
  induction h with
  | nil => exact .nil
  | keep related _ ih => exact .cons related ih
  | insert new _ _ => exact absurd new (hnew _)

/-- A test that fails on all extra items leaves none of them. -/
theorem forall₂_filter (h : Interspersed r extra as bs) {p : α → Bool} {p' : β → Bool}
    (hkeep : ∀ a b, r a b → p' b = p a) (hnew : ∀ b, extra b → p' b = false) :
    List.Forall₂ r (as.filter p) (bs.filter p') :=
  (h.filter hkeep).forall₂ fun b ⟨hb, hp⟩ => by rw [hnew b hb] at hp; cases hp

theorem find? (h : Interspersed r extra as bs) {p : α → Bool} {p' : β → Bool}
    (hkeep : ∀ a b, r a b → p' b = p a) (hnew : ∀ b, extra b → p' b = false) :
    Option.Rel r (as.find? p) (bs.find? p') := by
  rw [← List.head?_filter, ← List.head?_filter]
  exact rel_head? (h.forall₂_filter hkeep hnew)

theorem any (h : Interspersed r extra as bs) {p : α → Bool} {p' : β → Bool}
    (hkeep : ∀ a b, r a b → p' b = p a) (hnew : ∀ b, extra b → p' b = false) :
    bs.any p' = as.any p := by
  rw [← List.isSome_find?, ← List.isSome_find?]
  exact isSome_eq_of_rel (h.find? hkeep hnew)

/-- What steps over related items keep up, and steps over extra items too, runs keep up. -/
theorem foldl {σ τ : Type} {inv : σ → τ → Prop} {f : σ → α → σ} {g : τ → β → τ}
    (h : Interspersed r extra as bs)
    (hkeep : ∀ a b s t, r a b → inv s t → inv (f s a) (g t b))
    (hnew : ∀ b s t, extra b → inv s t → inv s (g t b)) :
    ∀ s t, inv s t → inv (as.foldl f s) (bs.foldl g t) := by
  induction h with
  | nil => exact fun _ _ => id
  | keep related _ ih => exact fun s t hst => ih _ _ (hkeep _ _ s t related hst)
  | insert new _ ih => exact fun s t hst => ih _ _ (hnew _ s t new hst)

end Interspersed

end YieldLint
