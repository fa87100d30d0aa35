/-
Finite maps whose keys stand in the order of their first write.

`put` overwrites an entry in place and appends a new one; `erase` removes one.
`get?_put_self` and `get?_put_other` say that a look-up sees the last write to
its key and no other, `get?_erase_self` and `get?_erase_other` the same of a
removal, `get?_mapWhere` of a change to all keys that pass a test, and `keys_put`
that a write adds at most its own key, at the end.
-/
namespace YieldLint

/-- The entries of a map with one of them overwritten in place, or appended. -/
def putEntry {κ α : Type} [DecidableEq κ] (k : κ) (v : α) : List (κ × α) → List (κ × α)
  | [] => [(k, v)]
  | (k', v') :: rest => if k' = k then (k, v) :: rest else (k', v') :: putEntry k v rest

theorem map_fst_putEntry {κ α : Type} [DecidableEq κ] (k : κ) (v : α) (l : List (κ × α)) :
    (putEntry k v l).map (·.1) =
      if k ∈ l.map (·.1) then l.map (·.1) else l.map (·.1) ++ [k] := by
  induction l with
  | nil => simp [putEntry]
  | cons e l ih =>
    obtain ⟨k', v'⟩ := e
    by_cases h : k' = k
    · simp [putEntry, h]
    · have h' : ¬ k = k' := fun he => h he.symm
      simp only [putEntry, h, if_false, List.map_cons, ih, List.mem_cons, h', false_or]
      split <;> simp

theorem lookup_putEntry {κ α : Type} [DecidableEq κ] (k k' : κ) (v : α) (l : List (κ × α)) :
    (putEntry k v l).lookup k' = if k' = k then some v else l.lookup k' := by
  induction l with
  | nil =>
    by_cases h : k' = k
    · simp [putEntry, h]
    · simp [putEntry, h, List.lookup_cons, beq_eq_false_iff_ne.2 h]
  | cons e l ih =>
    obtain ⟨k₁, v₁⟩ := e
    by_cases h : k₁ = k
    · by_cases h' : k' = k
      · simp [putEntry, h, h']
      · have hb : (k' == k) = false := beq_eq_false_iff_ne.2 h'
        simp [putEntry, h, h', List.lookup_cons, hb]
    · simp only [putEntry, h, if_false, List.lookup_cons]
      by_cases h' : k' = k₁
      · have hk : ¬ k' = k := fun he => h (h' ▸ he)
        subst h'
        simp [hk]
      · have hb : (k' == k₁) = false := beq_eq_false_iff_ne.2 h'
        simp only [hb, ih]

theorem isSome_lookup_iff {κ α : Type} [DecidableEq κ] {k : κ} {l : List (κ × α)} :
    (l.lookup k).isSome = true ↔ k ∈ l.map (·.1) := by
  rw [List.lookup_isSome_iff, List.mem_map]
  exact exists_congr fun e => and_congr_right fun _ => by rw [beq_iff_eq, eq_comm]

/-- A finite map: its keys are distinct and keep the order of their first write. -/
structure Table (κ α : Type) where
  entries : List (κ × α)
  nodup : (entries.map (·.1)).Nodup

namespace Table

variable {κ α : Type}

/-- The map without entries. -/
def empty : Table κ α := ⟨[], by simp⟩

/-- The keys, in the order of their first write. -/
def keys (t : Table κ α) : List κ := t.entries.map (·.1)

/-- The number of keys. -/
def size (t : Table κ α) : Nat := t.entries.length

variable [DecidableEq κ]

/-- The value last written under a key. -/
def get? (t : Table κ α) (k : κ) : Option α := t.entries.lookup k

/-- Writes a value under a key: in place if the key is known, else at the end. -/
def put (t : Table κ α) (k : κ) (v : α) : Table κ α where
  entries := putEntry k v t.entries
  nodup := by
    rw [map_fst_putEntry]
    split
    · exact t.nodup
    · rename_i h
      rw [List.nodup_append]
      exact ⟨t.nodup, by simp, fun a ha b hb => by
        rw [List.mem_singleton.1 hb]; exact fun he => h (he ▸ ha)⟩

/-- Removes a key. -/
def erase (t : Table κ α) (k : κ) : Table κ α where
  entries := t.entries.filter (fun e => decide (e.1 ≠ k))
  nodup := (List.filter_sublist.map _).nodup t.nodup

/-- Changes the value under each key that satisfies a test. -/
def mapWhere (t : Table κ α) (test : κ → Bool) (v : α) : Table κ α where
  entries := t.entries.map fun e => if test e.1 then (e.1, v) else e
  nodup := by
    have : (t.entries.map fun e => if test e.1 then (e.1, v) else e).map (·.1) =
        t.entries.map (·.1) := by
      rw [List.map_map]
      exact List.map_congr_left fun e _ => by simp only [Function.comp]; split <;> rfl
    rw [this]
    exact t.nodup

@[simp] theorem get?_empty (k : κ) : (empty : Table κ α).get? k = none := rfl

theorem get?_put (t : Table κ α) (k k' : κ) (v : α) :
    (t.put k v).get? k' = if k' = k then some v else t.get? k' :=
  lookup_putEntry k k' v t.entries

@[simp] theorem get?_put_self (t : Table κ α) (k : κ) (v : α) : (t.put k v).get? k = some v := by
  simp [get?_put]

theorem get?_put_other (t : Table κ α) {k k' : κ} (v : α) (h : k' ≠ k) :
    (t.put k v).get? k' = t.get? k' := by
  simp [get?_put, h]

theorem mem_keys_iff {t : Table κ α} {k : κ} : k ∈ t.keys ↔ (t.get? k).isSome = true :=
  isSome_lookup_iff.symm

theorem keys_put (t : Table κ α) (k : κ) (v : α) :
    (t.put k v).keys = if k ∈ t.keys then t.keys else t.keys ++ [k] :=
  map_fst_putEntry k v t.entries

theorem get?_erase (t : Table κ α) (k k' : κ) :
    (t.erase k).get? k' = if k' = k then none else t.get? k' := by
  simp only [get?, erase]
  induction t.entries with
  | nil => simp
  | cons e l ih =>
    obtain ⟨k₁, v₁⟩ := e
    by_cases h : k₁ = k
    · subst h
      by_cases h' : k' = k₁
      · simpa [h'] using ih
      · have hb : (k' == k₁) = false := beq_eq_false_iff_ne.2 h'
        simpa [List.lookup_cons, hb, h'] using ih
    · by_cases h' : k' = k₁
      · have hk : ¬ k' = k := fun he => h (h' ▸ he)
        subst h'
        simp [h]
      · have hb : (k' == k₁) = false := beq_eq_false_iff_ne.2 h'
        simpa [List.lookup_cons, hb, h] using ih

@[simp] theorem get?_erase_self (t : Table κ α) (k : κ) : (t.erase k).get? k = none := by
  simp [get?_erase]

theorem get?_erase_other (t : Table κ α) {k k' : κ} (h : k' ≠ k) :
    (t.erase k).get? k' = t.get? k' := by
  simp [get?_erase, h]

theorem get?_mapWhere (t : Table κ α) (test : κ → Bool) (v : α) (k : κ) :
    (t.mapWhere test v).get? k = if test k then (t.get? k).map fun _ => v else t.get? k := by
  simp only [get?, mapWhere]
  induction t.entries with
  | nil => simp
  | cons e l ih =>
    obtain ⟨k', v'⟩ := e
    have hkey : (if test k' then (k', v) else (k', v')).1 = k' := by split <;> rfl
    by_cases h : k = k'
    · subst h
      by_cases htest : test k = true
      · simp [htest]
      · simp [htest]
    · have hb : (k == k') = false := beq_eq_false_iff_ne.2 h
      rw [List.map_cons, List.lookup_cons, List.lookup_cons, hkey, hb, ih]

end Table

end YieldLint
