/-
What a name in an alias table goes back to.

Each binding that a table takes in writes some names: a named import its local name, and any
other a name for each effect (`Binding.Writes`). A name may be written again, by a binding of
either kind, as local names and effects may have dots in them. What the table knows of a name
is what the last binding that wrote it has given it (`LastWrite`): a step lemma for one binding
(`get?_add_iff`), and from it the same of a row of them (`get?_foldl_add_iff`) and of any uses
of a table (`get?_run_iff`). Effects may be gone through in any order, and in another one at
each use (`Catalogue.Ordering`).
-/
import Mathlib.Data.Set.Card
import YieldLint.Effect.Aliases

namespace YieldLint

namespace Table

variable {κ α : Type} (t : Table κ α)

theorem nodup_keys : t.keys.Nodup := t.nodup

theorem length_keys : t.keys.length = t.size := List.length_map _

end Table

/-! ## What a binding writes -/

/-- Gives a name a meaning: a named import its local name, any other import each property of
its local name that is called like an effect. -/
def Binding.Writes (c : Catalogue) : Binding → String → Option String → Prop
  | .named localName imported, k, v => k = localName ∧ v = imported
  | .defaultExport localName, k, v | .wholeModule localName, k, v =>
    ∃ name ∈ c.names, k = localName ++ "." ++ name ∧ v = some name

/-- Some binding of a row gives a name a meaning. -/
def Written (c : Catalogue) (bs : List Binding) (k : String) : Prop :=
  ∃ b ∈ bs, ∃ v, b.Writes c k v

/-- The meaning that the last binding of a row to write a name has given it. -/
def LastWrite (c : Catalogue) (bs : List Binding) (k : String) (v : Option String) : Prop :=
  ∃ before b after, bs = before ++ b :: after ∧ b.Writes c k v ∧ ¬Written c after k

section Written

variable {c : Catalogue} {b : Binding} {bs bs' : List Binding} {k : String} {v : Option String}

theorem Binding.Writes.congr {c' : Catalogue} (h : ∀ name, name ∈ c'.names ↔ name ∈ c.names) :
    b.Writes c' k v ↔ b.Writes c k v := by
  cases b <;> simp [Writes, h]

theorem not_written_nil : ¬Written c [] k := nofun

theorem written_cons : Written c (b :: bs) k ↔ (∃ v, b.Writes c k v) ∨ Written c bs k := by
  simp [Written]

theorem written_append : Written c (bs ++ bs') k ↔ Written c bs k ∨ Written c bs' k := by
  simp only [Written, List.mem_append, or_and_right, exists_or]

theorem LastWrite.written (h : LastWrite c bs k v) : Written c bs k := by
  obtain ⟨before, b, after, rfl, hwrites, -⟩ := h
  exact ⟨b, by simp, v, hwrites⟩

theorem not_lastWrite_nil : ¬LastWrite c [] k v := fun h => not_written_nil h.written

theorem lastWrite_cons : LastWrite c (b :: bs) k v ↔
    LastWrite c bs k v ∨ ¬Written c bs k ∧ b.Writes c k v := by
  constructor
  · rintro ⟨before, b', after, hsplit, hwrites, hafter⟩
    cases before with
    | nil =>
      obtain ⟨rfl, rfl⟩ := List.cons_eq_cons.1 hsplit
      exact .inr ⟨hafter, hwrites⟩
    | cons _ before =>
      obtain ⟨-, rfl⟩ := List.cons_eq_cons.1 hsplit
      exact .inl ⟨before, b', after, rfl, hwrites, hafter⟩
  · rintro (⟨before, b', after, rfl, hwrites, hafter⟩ | ⟨hnot, hwrites⟩)
    · exact ⟨b :: before, b', after, rfl, hwrites, hafter⟩
    · exact ⟨[], b, bs, rfl, hwrites, hnot⟩

/-- The second of two rows takes over what it writes. -/
theorem lastWrite_append : LastWrite c (bs ++ bs') k v ↔
    LastWrite c bs' k v ∨ ¬Written c bs' k ∧ LastWrite c bs k v := by
  induction bs with
  | nil => simp [not_lastWrite_nil]
  | cons b bs ih =>
    rw [List.cons_append, lastWrite_cons, ih, written_append, lastWrite_cons]
    tauto

theorem written_iff_exists_lastWrite : Written c bs k ↔ ∃ v, LastWrite c bs k v := by
  refine ⟨fun h => ?_, fun ⟨_, h⟩ => h.written⟩
  induction bs with
  | nil => exact absurd h not_written_nil
  | cons b bs ih =>
    by_cases hlater : Written c bs k
    · obtain ⟨v, hlast⟩ := ih hlater
      exact ⟨v, lastWrite_cons.2 (.inl hlast)⟩
    · obtain ⟨v, hwrites⟩ := (written_cons.1 h).resolve_right hlater
      exact ⟨v, lastWrite_cons.2 (.inr ⟨hlater, hwrites⟩)⟩

end Written

/-! ## What a table knows -/

namespace Aliases

variable {c : Catalogue} {a : Aliases} {b : Binding} {bs : List Binding} {k : String}
  {v : Option String}

theorem get?_addModule_other {localName : String}
    (h : ∀ name ∈ c.names, k ≠ localName ++ "." ++ name) :
    (addModule c a localName).get? k = a.get? k := by
  rw [addModule]
  generalize c.names = names at h
  induction names generalizing a with
  | nil => rfl
  | cons name names ih =>
    rw [List.foldl_cons, ih fun n hn => h n (List.mem_cons_of_mem _ hn),
      Table.get?_put_other a _ (h name List.mem_cons_self)]

/-- The name of an effect may be met again, but never another one for the same property. -/
theorem get?_addModule_self {localName name : String} (h : name ∈ c.names) :
    (addModule c a localName).get? (localName ++ "." ++ name) = some (some name) := by
  rw [addModule]
  generalize c.names = names at h
  induction names generalizing a with
  | nil => cases h
  | cons name' names ih =>
    rw [List.foldl_cons]
    by_cases hmem : name ∈ names
    · exact ih hmem
    · obtain rfl : name = name' := (List.mem_cons.1 h).resolve_right hmem
      have hother : ∀ n ∈ names, localName ++ "." ++ name ≠ localName ++ "." ++ n :=
        fun n hn heq => hmem ((String.append_right_inj _).1 heq ▸ hn)
      exact (get?_addModule_other (c := ⟨names, []⟩) hother).trans (Table.get?_put_self a _ _)

/-- **One binding.** What a binding does not write stays as it was. -/
theorem get?_add_iff : (add c a b).get? k = some v ↔
    b.Writes c k v ∨ (∀ w, ¬b.Writes c k w) ∧ a.get? k = some v := by
  have module (localName : String) : (addModule c a localName).get? k = some v ↔
      (∃ name ∈ c.names, k = localName ++ "." ++ name ∧ v = some name) ∨
        (∀ w, ¬∃ name ∈ c.names, k = localName ++ "." ++ name ∧ w = some name) ∧
          a.get? k = some v := by
    by_cases hk : ∃ name ∈ c.names, k = localName ++ "." ++ name
    · obtain ⟨name, hname, rfl⟩ := hk
      simp [get?_addModule_self hname, hname, eq_comm]
    · have hnot (w : Option String) :
          ¬∃ name ∈ c.names, k = localName ++ "." ++ name ∧ w = some name := by
        rintro ⟨name, hname, heq, -⟩
        exact hk ⟨name, hname, heq⟩
      rw [get?_addModule_other fun name hname heq => hk ⟨name, hname, heq⟩]
      exact ⟨fun h => .inr ⟨hnot, h⟩, fun h => (h.resolve_left (hnot v)).2⟩
  cases b with
  | named localName imported =>
    by_cases hk : k = localName
    · simp [add, addNamed, Binding.Writes, hk, eq_comm]
    · simp [add, addNamed, Binding.Writes, hk, Table.get?_put]
  | defaultExport localName => exact module localName
  | wholeModule localName => exact module localName

/-- **A row of bindings.** What none of them writes stays as it was. -/
theorem get?_foldl_add_iff : (bs.foldl (add c) a).get? k = some v ↔
    LastWrite c bs k v ∨ ¬Written c bs k ∧ a.get? k = some v := by
  induction bs generalizing a with
  | nil => simp [not_lastWrite_nil, not_written_nil]
  | cons b bs ih =>
    rw [List.foldl_cons, ih, get?_add_iff, lastWrite_cons, written_cons]
    simp only [not_or, not_exists]
    tauto

end Aliases

/-! ## Uses of a table -/

/-- A use of an alias table that may fill it: a module's local name is registered, a named import,
or what an import statement binds. -/
inductive Registration where
  | wholeModule (localName : String)
  | named (localName : String) (imported : Option String)
  | imports (specifier : Option String) (bindings : List Binding)

namespace Registration

def apply (c : Catalogue) (a : Aliases) : Registration → Aliases
  | .wholeModule localName => Aliases.addModule c a localName
  | .named localName imported => a.addNamed localName imported
  | .imports specifier bindings => (a.observe c specifier bindings).1

/-- The bindings that are registered: those of an import only if it is from a tracked module. -/
def bindings (c : Catalogue) : Registration → List Binding
  | .wholeModule localName => [.wholeModule localName]
  | .named localName imported => [.named localName imported]
  | .imports specifier bindings => if c.tracks specifier then bindings else []

theorem apply_eq (c : Catalogue) (a : Aliases) (r : Registration) :
    r.apply c a = (r.bindings c).foldl (Aliases.add c) a := by
  cases r with
  | wholeModule localName => rfl
  | named localName imported => rfl
  | imports specifier bs =>
    rw [apply, Aliases.observe, bindings]
    split <;> rfl

end Registration

/-- An order in which the effects of a catalogue are gone through. -/
structure Catalogue.Ordering (c : Catalogue) where
  names : List String
  mem_names_iff : ∀ name, name ∈ names ↔ name ∈ c.names

/-- The same effects, in the order given. -/
def Catalogue.Ordering.catalogue {c : Catalogue} (o : c.Ordering) : Catalogue :=
  { c with names := o.names }

namespace Aliases

variable {c : Catalogue} {k : String} {v : Option String}

/-- The table after some uses of it, at each of which the effects are gone through in an order
of its own. -/
def run (uses : List (c.Ordering × Registration)) : Aliases :=
  uses.foldl (fun a use => use.2.apply use.1.catalogue a) .empty

/-- The bindings that some uses of a table register, one after the other. -/
def registered (uses : List (c.Ordering × Registration)) : List Binding :=
  uses.flatMap fun use => use.2.bindings c

variable {uses : List (c.Ordering × Registration)}

/-- **Any uses.** A table knows of a name what the last binding to write it has given it. -/
theorem get?_run_iff : (run uses).get? k = some v ↔ LastWrite c (registered uses) k v := by
  induction uses using List.reverseRecOn generalizing v with
  | nil => simp [run, registered, not_lastWrite_nil]
  | append_singleton uses use ih =>
    obtain ⟨order, r⟩ := use
    have hwrites {b : Binding} {w : Option String} :
        b.Writes order.catalogue k w ↔ b.Writes c k w :=
      Binding.Writes.congr order.mem_names_iff
    have hbindings : r.bindings order.catalogue = r.bindings c := by
      cases r <;> rfl
    have hrun : run (uses ++ [(order, r)]) = r.apply order.catalogue (run uses) := by
      simp [run]
    have hregistered : registered (uses ++ [(order, r)]) = registered uses ++ r.bindings c := by
      simp [registered]
    rw [hrun, Registration.apply_eq, get?_foldl_add_iff, ih, hbindings, hregistered,
      lastWrite_append]
    simp only [LastWrite, Written, hwrites]

theorem mem_keys_run_iff : k ∈ (run uses).keys ↔ Written c (registered uses) k := by
  rw [Table.mem_keys_iff, Option.isSome_iff_exists, written_iff_exists_lastWrite]
  exact exists_congr fun v => get?_run_iff

theorem resolve_of_lastWrite (h : LastWrite c (registered uses) k v) :
    (run uses).resolve (some k) = v := by
  rw [resolve, Option.bind_some, get?_run_iff.2 h]
  rfl

theorem resolve_of_not_written (h : ¬Written c (registered uses) k) :
    (run uses).resolve (some k) = none := by
  have hnone : (run uses).get? k = none := by
    rw [← mem_keys_run_iff, Table.mem_keys_iff] at h
    simpa using h
  rw [resolve, Option.bind_some, hnone]
  rfl

theorem size_run : (run uses).size = {k | Written c (registered uses) k}.ncard := by
  have hkeys : {k | Written c (registered uses) k} = ↑(run uses).keys.toFinset := by
    ext k
    simp [mem_keys_run_iff]
  rw [hkeys, Set.ncard_coe_finset, List.toFinset_card_of_nodup (run uses).nodup_keys,
    Table.length_keys]

theorem size_run_le (use : c.Ordering × Registration) :
    (run uses).size ≤ (run (uses ++ [use])).size := by
  have hsub : (run uses).keys ⊆ (run (uses ++ [use])).keys := by
    intro k hk
    rw [mem_keys_run_iff] at hk ⊢
    rw [registered, List.flatMap_append]
    exact written_append.2 (.inl hk)
  rw [← Table.length_keys, ← Table.length_keys]
  exact ((run uses).nodup_keys.subperm hsub).length_le

/-- **The last write wins.** Over any uses of an alias table, a name means what the last
binding to write it has given it, and nothing if none has written it. There are as many names
as have been written, and a further use takes none away. The orders in which the effects were
gone through make no difference. An import registers all of its bindings if its module is
tracked, and none if it is not. -/
theorem last_write_wins (c : Catalogue) (uses : List (c.Ordering × Registration)) :
    (∀ k v, LastWrite c (registered uses) k v → (run uses).resolve (some k) = v) ∧
      (∀ k, ¬Written c (registered uses) k → (run uses).resolve (some k) = none) ∧
      (run uses).resolve none = none ∧
      (run uses).size = {k | Written c (registered uses) k}.ncard ∧
      (∀ use, (run uses).size ≤ (run (uses ++ [use])).size) ∧
      (∀ uses' : List (c.Ordering × Registration), uses'.map (·.2) = uses.map (·.2) →
        (∀ key, (run uses').resolve key = (run uses).resolve key) ∧
          (run uses').size = (run uses).size) ∧
      ∀ (order : c.Ordering) specifier bindings,
        ((run uses).observe order.catalogue specifier bindings).2 =
          if c.tracks specifier then bindings.length else 0 := by
  refine ⟨fun k v => resolve_of_lastWrite, fun k => resolve_of_not_written, rfl, size_run,
    size_run_le, fun uses' hsame => ?_, fun order specifier bindings => ?_⟩
  · have hregistered : registered uses' = registered uses := by
      have hmap (us : List (c.Ordering × Registration)) :
          registered us = (us.map (·.2)).flatMap (·.bindings c) := by
        rw [List.flatMap_map]
        rfl
      rw [hmap, hmap, hsame]
    refine ⟨fun key => ?_, by rw [size_run, size_run, hregistered]⟩
    have hget (k : String) : (run uses').get? k = (run uses).get? k :=
      Option.ext fun v => by rw [get?_run_iff, get?_run_iff, hregistered]
    simp only [resolve, hget]
  · rw [observe]
    exact (apply_ite Prod.snd ..).trans rfl

/-- `E.a.b` is the effect `a.b` of a module `E`, and the effect `b` of a module `E.a`. -/
example :
    let c : Catalogue := { names := ["a.b", "b"], sources := [] }
    let forth : c.Ordering := ⟨["a.b", "b"], fun _ => Iff.rfl⟩
    let back : c.Ordering := ⟨["b", "a.b"], fun _ => by simp [c, or_comm]⟩
    let a := run [(forth, .wholeModule "E"), (back, .wholeModule "E.a")]
    a.resolve (some "E.a.b") = some "b" ∧ a.size = 3 := by decide +kernel

end Aliases

end YieldLint
