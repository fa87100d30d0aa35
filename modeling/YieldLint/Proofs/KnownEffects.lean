/-
Which effects a flagged yield may call.

The alias table of a document holds what its imports of tracked modules have registered, in
the order in which they stand (`resolve_ofImports_iff`). A name that it resolves to is an effect
of the catalogue, or one that a named import asks for: only imports of a whole module look at
the catalogue (`mem_names_or_imported_of_resolve`). So a yield is flagged for a call of a listed
effect, or of anything else that was imported by its name from a tracked module
(`flagged_yields_call_listed_or_imported`).
-/
import YieldLint.Proofs.EffectCalls
import YieldLint.Proofs.Registrations

namespace YieldLint

namespace Aliases

variable {c : Catalogue} {source : Bytes} {ns : List Node} {k name : String}

/-- The bindings that the imports among some nodes register, in the order of the nodes. -/
def imported (c : Catalogue) (source : Bytes) (ns : List Node) : List Binding :=
  (ns.filter (·.isImport)).flatMap fun n =>
    (Registration.imports (n.importSource? source) (n.importBindings source)).bindings c

theorem ofImports_eq : ofImports c source ns = (imported c source ns).foldl (add c) .empty := by
  rw [ofImports, imported]
  generalize (.empty : Aliases) = a
  induction ns.filter (·.isImport) generalizing a with
  | nil => rfl
  | cons n imports ih =>
    rw [List.foldl_cons, List.flatMap_cons, List.foldl_append, ih]
    congr 1
    exact Registration.apply_eq c a (.imports (n.importSource? source) (n.importBindings source))

/-- A name means what the last binding of the imports to write it has given it. -/
theorem resolve_ofImports_iff : (ofImports c source ns).resolve (some k) = some name ↔
    LastWrite c (imported c source ns) k (some name) := by
  rw [resolve, Option.bind_some, Option.join_eq_some_iff, ofImports_eq, get?_foldl_add_iff]
  simp

theorem mem_imported {b : Binding} : b ∈ imported c source ns ↔ ∃ m ∈ ns, m.isImport = true ∧
    c.tracks (m.importSource? source) = true ∧ b ∈ m.importBindings source := by
  simp [imported, Registration.bindings, and_assoc]

theorem mem_names_or_named_of_writes {b : Binding} (h : b.Writes c k (some name)) :
    name ∈ c.names ∨ b = .named k (some name) := by
  cases b with
  | named localName imported =>
    obtain ⟨rfl, rfl⟩ := h
    exact .inr rfl
  | defaultExport localName | wholeModule localName =>
    obtain ⟨name', hmem, -, heq⟩ := h
    exact .inl (Option.some.inj heq ▸ hmem)

theorem mem_names_or_imported_of_resolve {key : Option String}
    (h : (ofImports c source ns).resolve key = some name) : ∃ k, key = some k ∧
      (name ∈ c.names ∨ ∃ m ∈ ns, m.isImport = true ∧
        c.tracks (m.importSource? source) = true ∧
          .named k (some name) ∈ m.importBindings source) := by
  cases key with
  | none => cases h
  | some k =>
    obtain ⟨before, b, after, hsplit, hwrites, -⟩ := resolve_ofImports_iff.1 h
    refine ⟨k, rfl, (mem_names_or_named_of_writes hwrites).imp_right ?_⟩
    rintro rfl
    have hmem : .named k (some name) ∈ imported c source ns := by simp [hsplit]
    exact mem_imported.1 hmem

/-- A name that no effect has is what a named import has bound, if no later binding writes the
same key. -/
theorem resolve_eq_unlisted_iff (hname : name ∉ c.names) :
    (ofImports c source ns).resolve (some k) = some name ↔ ∃ before after,
      imported c source ns = before ++ .named k (some name) :: after ∧ ¬Written c after k := by
  rw [resolve_ofImports_iff]
  constructor
  · rintro ⟨before, b, after, hsplit, hwrites, hafter⟩
    obtain rfl := (mem_names_or_named_of_writes hwrites).resolve_left hname
    exact ⟨before, after, hsplit, hafter⟩
  · rintro ⟨before, after, hsplit, hafter⟩
    exact ⟨before, _, after, hsplit, ⟨rfl, rfl⟩, hafter⟩

end Aliases

namespace Rule

variable (rule : Rule) (source : Bytes) (top : Node)

theorem exists_call_of_mem_findings {f : Finding} (h : f ∈ rule.findings source top)
    (hyield : f.anchor.kind = "yield_expression") : ∃ argument e,
      f.anchor.yieldArgument? = some argument ∧
        Relation.ReflTransGen Node.LooksInto argument e ∧
        e.CallsKnown (rule.aliasesAt source top f.anchor) source := by
  rw [findings_eq_expected, mem_expected] at h
  obtain ⟨-, -, hexpected⟩ := h
  rw [expected?_eq] at hexpected
  by_cases hmisses : f.anchor.missesStar (rule.aliasesAt source top f.anchor) source = true
  · obtain ⟨-, -, argument, hargument, heffect⟩ := (Node.missesStar_iff hyield _ source).1 hmisses
    obtain ⟨e, hpath, hcalls⟩ := Node.isEffectCall_iff_exists_path.1 heffect
    exact ⟨argument, e, hargument, hpath, hcalls⟩
  · simp [hyield, hmisses] at hexpected

/-- **Flagged yields call listed effects, or what was imported by name.** Whatever nodes of a
document have been walked over, the alias table resolves to effects of the catalogue, and to
names that a named import from a tracked module asks for: to one that is no effect just when
such an import binds it, and no later one of a tracked module writes the same key. So steps
into the argument of a flagged yield, through parentheses and into branches of conditionals,
lead to a call which resolves to an effect of the catalogue, or to what an import before the
yield has bound to its callee by name. -/
theorem flagged_yields_call_listed_or_imported :
    (∀ ns key name, (Aliases.ofImports rule.catalogue source ns).resolve key = some name →
      ∃ k, key = some k ∧ (name ∈ rule.catalogue.names ∨ ∃ m ∈ ns, m.isImport = true ∧
        rule.catalogue.tracks (m.importSource? source) = true ∧
          .named k (some name) ∈ m.importBindings source)) ∧
    (∀ ns k name, name ∉ rule.catalogue.names →
      ((Aliases.ofImports rule.catalogue source ns).resolve (some k) = some name ↔
        ∃ before after, Aliases.imported rule.catalogue source ns =
          before ++ .named k (some name) :: after ∧ ¬Written rule.catalogue after k)) ∧
    ∀ f ∈ rule.findings source top, f.anchor.kind = "yield_expression" →
      ∃ argument e k name, f.anchor.yieldArgument? = some argument ∧
        Relation.ReflTransGen Node.LooksInto argument e ∧ e.kind = "call_expression" ∧
        e.calleeKey? source = some k ∧
        (rule.aliasesAt source top f.anchor).resolve (some k) = some name ∧
        (name ∈ rule.catalogue.names ∨ ∃ m ∈ top.preorder, m.index < f.anchor.index ∧
          m.isImport = true ∧ rule.catalogue.tracks (m.importSource? source) = true ∧
            .named k (some name) ∈ m.importBindings source) := by
  refine ⟨fun ns key name => Aliases.mem_names_or_imported_of_resolve,
    fun ns k name => Aliases.resolve_eq_unlisted_iff, fun f hf hyield => ?_⟩
  obtain ⟨argument, e, hargument, hpath, hcall, name, hresolve⟩ :=
    rule.exists_call_of_mem_findings source top hf hyield
  obtain ⟨k, hkey, horigin⟩ := Aliases.mem_names_or_imported_of_resolve hresolve
  rw [hkey] at hresolve
  refine ⟨argument, e, k, name, hargument, hpath, hcall, hkey, hresolve, horigin.imp_right ?_⟩
  rintro ⟨m, hm, himport⟩
  obtain ⟨hmem, hbefore⟩ := List.mem_filter.1 hm
  exact ⟨m, hmem, by simpa using hbefore, himport⟩

end Rule

/-! ## A saga that yields a call of no effect -/

namespace UnlistedSaga

open NestedSaga

/-- The saga imports `noop` by name. -/
def source : Bytes :=
  Utf8.encode
    "import\x7bnoop\x7dfrom'typed-redux-saga';function*s()\x7byield noop()\x7d"

/-- Its tree, with the import statement of the nested saga, which has as many bytes. -/
def tree : Tree :=
  piece "program" true none 0 61 <| (NestedSaga.tree true false false).children.take 1 ++
    [piece "generator_function_declaration" true none 35 61
      [yielded true false 48 60 (effect 54 60 [])]]

end UnlistedSaga

open UnlistedSaga in
/-- `noop` is no effect, but the only yield of the saga is flagged, and the only call in it is
one of `noop`, which the alias table resolves to `noop`. -/
theorem flagged_noop :
    let top := Node.ofTree tree
    let calls := top.preorder.filter (·.kind == "call_expression")
    "noop" ∉ Catalogue.typedReduxSaga.names ∧
      (Aliases.ofImports .typedReduxSaga source top.preorder).resolve (some "noop") =
        some "noop" ∧
      (({} : Rule).check source "a.js" top).map (·.snippet) = ["yield noop()"] ∧
      calls.map (·.calleeKey? source) = [some "noop"] := by
  decide +kernel

end YieldLint
