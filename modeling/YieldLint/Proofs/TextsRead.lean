/-
Which texts the rule reads.

The rule tells imports and callees by their texts, and everything else by the shape of the tree.
So of two sources in which import statements and callees have the same texts, down to the last
node (`Rule.ReadsAlike`), it is told the same: the imports bind the same names
(`Node.SameTexts.importBindings`), and the same expressions are effect calls
(`Rule.ReadsAlike.isEffectCall`). At each node the same is found, but for the text that a fix
puts in place of what the node covers (`Rule.ReadsAlike.map_textless_expected?`).
-/
import YieldLint.Proofs.EffectCalls

namespace YieldLint

/-! ## What is read of one node -/

namespace Node

variable {n c e : Node} {source source' : Bytes}

theorem mem_preorder_of_unwrapParens (h : n.unwrapParens = some e) : e ∈ n.preorder := by
  fun_induction unwrapParens n with
  | case1 => cases h
  | case2 n _ c _ hc ih =>
    have hmem : c ∈ n.significantChildren := by rw [hc]; exact List.mem_cons_self
    exact preorder_subset_of_mem_children (List.mem_of_mem_filter hmem) (ih h)
  | case3 n =>
    obtain rfl := Option.some.inj h
    exact n.self_mem_preorder

theorem mem_preorder_of_path (h : Relation.ReflTransGen LooksInto n e) : e ∈ n.preorder := by
  induction h using Relation.ReflTransGen.head_induction_on with
  | refl => exact e.self_mem_preorder
  | head hlook _ ih => exact preorder_subset_of_mem_children hlook.mem_children ih

/-- The node, and everything below it, has the same text in two sources. -/
def SameTexts (source source' : Bytes) (n : Node) : Prop :=
  ∀ m ∈ n.preorder, m.text source' = m.text source

instance (source source' : Bytes) (n : Node) : Decidable (n.SameTexts source source') :=
  inferInstanceAs (Decidable (∀ m ∈ n.preorder, _))

namespace SameTexts

variable (h : n.SameTexts source source')

include h

theorem text : n.text source' = n.text source := h n n.self_mem_preorder

theorem of_mem_children (hc : c ∈ n.children) : c.SameTexts source source' :=
  fun m hm => h m (preorder_subset_of_mem_children hc hm)

theorem of_mem_namedChildren (hc : c ∈ n.namedChildren) : c.SameTexts source source' :=
  h.of_mem_children (List.mem_of_mem_filter hc)

theorem of_childByField? {field : String} (hc : n.childByField? field = some c) :
    c.SameTexts source source' :=
  h.of_mem_children (List.mem_of_find?_eq_some hc)

theorem of_unwrapParens (he : n.unwrapParens = some e) : e.SameTexts source source' :=
  fun m hm => h m (preorder_subset (mem_preorder_of_unwrapParens he) hm)

/-! ### Imports -/

theorem stringValue : n.stringValue source' = n.stringValue source := by
  rw [Node.stringValue, Node.stringValue, h.text]

theorem specifierName : n.specifierName source' = n.specifierName source := by
  rw [Node.specifierName, Node.specifierName, h.stringValue, h.text]

theorem importSource? : n.importSource? source' = n.importSource? source := by
  rw [Node.importSource?, Node.importSource?]
  exact Option.map_congr fun c hc => (h.of_childByField? hc).stringValue

theorem specifierBinding? : n.specifierBinding? source' = n.specifierBinding? source := by
  rw [Node.specifierBinding?, Node.specifierBinding?]
  refine Option.bind_congr fun m hm => ?_
  rw [(h.of_childByField? hm).specifierName]
  cases halias : n.childByField? "alias" with
  | none => rfl
  | some a => simp only [(h.of_childByField? halias).specifierName]

theorem clauseBindings : n.clauseBindings source' = n.clauseBindings source := by
  rw [Node.clauseBindings, Node.clauseBindings, h.text]
  split
  · rfl
  split
  · cases hname : n.namedChildren.find? (·.kind == "identifier") with
    | none => rfl
    | some c => simp only [(h.of_mem_namedChildren (List.mem_of_find?_eq_some hname)).text]
  split
  · refine List.filterMap_congr fun c hc => ?_
    exact (h.of_mem_namedChildren (List.mem_of_mem_filter hc)).specifierBinding?
  · rfl

theorem importBindings : n.importBindings source' = n.importBindings source := by
  rw [Node.importBindings, Node.importBindings]
  cases hclause : n.namedChildren.find? (·.kind == "import_clause") with
  | none => rfl
  | some clause =>
    have hclause := h.of_mem_namedChildren (List.mem_of_find?_eq_some hclause)
    exact List.flatMap_congr fun part hpart => (hclause.of_mem_namedChildren hpart).clauseBindings

theorem observeImport (catalogue : Catalogue) (aliases : Aliases) :
    aliases.observeImport catalogue n source' = aliases.observeImport catalogue n source := by
  rw [Aliases.observeImport, Aliases.observeImport, h.importSource?, h.importBindings]

end SameTexts

/-! ### Callees -/

theorem calleeKey?_of_sameTexts
    (h : ∀ callee ∈ n.childByField? "function", callee.SameTexts source source') :
    n.calleeKey? source' = n.calleeKey? source := by
  rw [calleeKey?, calleeKey?]
  refine Option.bind_congr fun f hf => Option.bind_congr fun callee hcallee => ?_
  have hcallee := (h f hf).of_unwrapParens hcallee
  rw [hcallee.text]
  split
  · rfl
  split
  · refine Option.bind_congr fun o ho => Option.bind_congr fun object hobject => ?_
    refine Option.bind_congr fun property hproperty => ?_
    rw [((hcallee.of_childByField? ho).of_unwrapParens hobject).text,
      (hcallee.of_childByField? hproperty).text]
  · rfl

end Node

/-! ## What is read below a node -/

/-- Two sources that read alike below a node: in import statements and in callees, each node
has the same text in both. -/
structure Rule.ReadsAlike (source source' : Bytes) (top : Node) : Prop where
  imports : ∀ n ∈ top.preorder, n.kind = "import_statement" → n.SameTexts source source'
  callees : ∀ n ∈ top.preorder, n.kind = "call_expression" →
    ∀ callee ∈ n.childByField? "function", callee.SameTexts source source'

/-- A fix, less the text that it puts in place of another. -/
def Fix.textless (f : Fix) : Fix :=
  match f.kind with
  | .replace => { f with text := "" }
  | .insertBefore => f

/-- A finding, less the text that its fix puts in place of another. -/
def Finding.textless (f : Finding) : Finding := { f with fix := f.fix.textless }

/-- A report, less its snippet and the text that its fix puts in place of another. -/
def Violation.textless (v : Violation) : Violation :=
  { v with snippet := "", fix := v.fix.map Fix.textless }

theorem Fix.textless_textless (f : Fix) : f.textless.textless = f.textless := by
  obtain ⟨kind, startByte, endByte, text⟩ := f
  cases kind <;> rfl

namespace Rule

variable {rule : Rule} {source source' : Bytes} {top n : Node} {aliases : Aliases}

namespace ReadsAlike

variable (h : ReadsAlike source source' top)

include h

theorem calleeKey? (hn : n ∈ top.preorder) (hcall : n.kind = "call_expression") :
    n.calleeKey? source' = n.calleeKey? source :=
  Node.calleeKey?_of_sameTexts (h.callees n hn hcall)

theorem isEffectCall (hn : n ∈ top.preorder) :
    n.isEffectCall aliases source' = n.isEffectCall aliases source := by
  rw [Bool.eq_iff_iff, Node.isEffectCall_iff_exists_path, Node.isEffectCall_iff_exists_path]
  refine exists_congr fun e => and_congr_right fun hpath => and_congr_right fun hcall => ?_
  rw [h.calleeKey? (Node.preorder_subset hn (Node.mem_preorder_of_path hpath)) hcall]

theorem missesStar (hn : n ∈ top.preorder) :
    n.missesStar aliases source' = n.missesStar aliases source := by
  rw [Node.missesStar, Node.missesStar]
  cases hargument : n.yieldArgument? with
  | none => rfl
  | some argument =>
    have hmem : argument ∈ n.children :=
      List.mem_of_mem_filter (List.mem_of_getLast? hargument)
    have hbelow : argument ∈ top.preorder :=
      Node.preorder_subset hn (Node.preorder_subset_of_mem_children hmem argument.self_mem_preorder)
    rw [Option.any_some, Option.any_some, h.isEffectCall hbelow]

theorem isBareCall (hn : n ∈ top.preorder) (hcall : n.kind = "call_expression")
    (nesting : Nesting) :
    n.isBareCall aliases nesting source' = n.isBareCall aliases nesting source := by
  rw [Node.isBareCall, Node.isBareCall, Node.resolveEffect_call hcall,
    Node.resolveEffect_call hcall, h.calleeKey? hn hcall]

theorem aliasesAt (n : Node) : rule.aliasesAt source' top n = rule.aliasesAt source top n := by
  rw [Rule.aliasesAt, Rule.aliasesAt, Aliases.ofImports, Aliases.ofImports]
  refine List.foldl_ext _ _ _ fun aliases m hm => ?_
  obtain ⟨hbefore, himport⟩ := List.mem_filter.1 hm
  have hsame := h.imports m (List.mem_of_mem_filter hbefore) (Node.kind_of_isImport himport)
  rw [hsame.observeImport]

/-- At each node the same is found, but for the text that a fix puts in. -/
theorem map_textless_expected? (hn : n ∈ top.preorder) :
    (rule.expected? source' top n).map Finding.textless =
      (rule.expected? source top n).map Finding.textless := by
  rw [expected?_eq, expected?_eq, h.aliasesAt, h.missesStar hn]
  by_cases hcall : n.kind = "call_expression"
  · rw [h.isBareCall hn hcall]
    split
    · rfl
    · split <;> rfl
  · simp only [hcall, false_and, if_false]
    split <;> rfl

theorem map_textless_findings (rule : Rule) :
    (rule.findings source' top).map Finding.textless =
      (rule.findings source top).map Finding.textless := by
  rw [findings_eq_expected, findings_eq_expected, expected, expected, List.map_filterMap,
    List.map_filterMap]
  exact List.filterMap_congr fun n hn => h.map_textless_expected? (List.mem_of_mem_filter hn)

end ReadsAlike

/-- Less its texts, a report says nothing of the source. -/
theorem textless_report (path : String) (f : Finding) :
    (rule.report source' path f).textless = (rule.report source path f.textless).textless := by
  simp only [report, Violation.textless, Finding.textless]
  split
  · rw [Option.map_some, Option.map_some, Fix.textless_textless]
  · rfl

/-- **The rule reads imports and callees only.** Where each node in an import statement, and
each node in the callee of a call, has the same text in two sources, the rule finds the same
nodes in the same order, with fixes of the same kind for the same bytes: what it reports is the
same but for the snippets, and for the texts put in place of what yields cover. -/
theorem reads_imports_and_callees (rule : Rule) (source source' : Bytes) (top : Node)
    (h : ReadsAlike source source' top) (path : String) :
    (rule.findings source' top).map Finding.textless =
        (rule.findings source top).map Finding.textless ∧
      (rule.check source' path top).map Violation.textless =
        (rule.check source path top).map Violation.textless := by
  have hfindings := h.map_textless_findings rule
  refine ⟨hfindings, ?_⟩
  have hcheck (s : Bytes) : (rule.check s path top).map Violation.textless =
      ((rule.findings s top).map Finding.textless).map
        fun f => (rule.report source path f).textless := by
    rw [check, List.map_map, List.map_map]
    exact List.map_congr_left fun f _ => textless_report path f
  rw [hcheck source', hcheck source, hfindings]

end Rule

open NestedSaga in
/-- In the nested saga, any bytes may stand outside the import and the two callees: both yields
are found still, with other snippets and other texts to put in their place. -/
theorem reads_imports_and_callees_of_nestedSaga :
    let top := Node.ofTree (tree true false false)
    let garbled := Utf8.encode
      "import\x7bcall\x7dfrom'typed-redux-saga';+ garbage + \x7b##### call(????? call##!"
    Rule.ReadsAlike (source false false) garbled top ∧
      (({} : Rule).check garbled "a.js" top).map Violation.textless =
        (({} : Rule).check (source false false) "a.js" top).map Violation.textless ∧
      (({} : Rule).check (source false false) "a.js" top).map (·.snippet) =
        ["yield call(yield call())", "yield call()"] ∧
      (({} : Rule).check garbled "a.js" top).map (·.snippet) =
        ["##### call(????? call##!", "????? call##"] := by
  intro top garbled
  have halike : Rule.ReadsAlike (source false false) garbled top :=
    ⟨by decide +kernel, by decide +kernel⟩
  exact ⟨halike, (Rule.reads_imports_and_callees {} _ _ _ halike "a.js").2, by decide +kernel,
    by decide +kernel⟩

end YieldLint
