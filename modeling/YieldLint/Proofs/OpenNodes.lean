/-
What the counters of a walk count.

Of the events of a walk so far, some nodes are entered and not left (`Event.stillOpen`). They
are at every moment the nodes above, down from the node that the walk started from
(`keepsUp_log`), in the order in which they were entered; so a walk enters a node behind all that
are open, and leaves the last of them and no other. The counters of the rule are read off the
same nodes (`Rule.keepsUp_passAt`). So they are at every moment the numbers of the generators and
of the yields that are open, and none is when a walk has ended (`counters_count_open_nodes`).
-/
import YieldLint.Proofs.LikeReports
import YieldLint.Proofs.Traversal

namespace YieldLint

deriving instance DecidableEq for Event

/-! ## Entered and not left -/

namespace Event

/-- The nodes that are entered among some events and not left, in the order of their entries. -/
def stillOpen (es : List Event) : List Node :=
  (es.filterMap entered?).filter fun n => decide (.exit n ∉ es)

variable {es : List Event} {n : Node}

theorem mem_stillOpen : n ∈ stillOpen es ↔ .enter n ∈ es ∧ .exit n ∉ es := by
  have hentered : n ∈ es.filterMap entered? ↔ .enter n ∈ es := by
    rw [List.mem_filterMap]
    constructor
    · rintro ⟨e, he, hn⟩
      cases e with
      | enter m => cases hn; exact he
      | exit m => cases hn
    · exact fun he => ⟨_, he, rfl⟩
  rw [stillOpen, List.mem_filter, hentered, decide_eq_true_iff]

theorem stillOpen_enter (h : .exit n ∉ es) : stillOpen (es ++ [.enter n]) = stillOpen es ++ [n] := by
  have hexits : ∀ m, .exit m ∈ es ++ [.enter n] ↔ .exit m ∈ es := by simp
  simp only [stillOpen, hexits, List.filterMap_append, List.filter_append]
  congr 1
  simp [entered?, h]

theorem stillOpen_exit (es : List Event) (n : Node) :
    stillOpen (es ++ [.exit n]) = (stillOpen es).filter fun m => decide (m ≠ n) := by
  have hexits : ∀ m, .exit m ∉ es ++ [.exit n] ↔ .exit m ∉ es ∧ m ≠ n := by simp
  simp only [stillOpen, hexits, List.filterMap_append, List.filter_filter]
  simp [entered?, Bool.and_comm]

theorem nodup_stillOpen (h : (es.filterMap entered?).Nodup) : (stillOpen es).Nodup :=
  h.sublist List.filter_sublist

/-- The nodes above an event of a walk from `top`: those above its node, the nearest first, and
on leaving the node itself. -/
def around (top : Node) : Event → List Node
  | .enter n => n.ancestorsWithin top
  | .exit n => n :: n.ancestorsWithin top

end Event

/-! ## Open nodes are the nodes above -/

theorem Node.filter_ne_ancestorsWithin (n top : Node) :
    ((n :: n.ancestorsWithin top).filter fun m => decide (m ≠ n)) = n.ancestorsWithin top := by
  have hothers : ∀ m ∈ n.ancestorsWithin top, m ≠ n := by
    rintro m hm rfl
    exact Nat.lt_irrefl _ (depth_lt_of_mem_ancestors (List.mem_of_mem_filter hm))
  rw [List.filter_cons_of_neg (by simp), List.filter_eq_self.2 (by simpa using hothers)]

theorem Node.not_mem_of_preorder_eq {top n : Node} {before after : List Node}
    (h : top.preorder = before ++ n :: after) : n ∉ before := by
  have hnodup := top.nodup_preorder
  rw [h, List.nodup_append] at hnodup
  exact fun hn => hnodup.2.2 n hn n List.mem_cons_self rfl

open Event (stillOpen stillOpen_enter stillOpen_exit)

/-- The events that are written down of a walk from `top`: they happen to the nodes before, and
of the nodes above those from `top` down are open. -/
structure Event.Log (top : Node) (before above : List Node) (es : List Event) : Prop where
  nodes : ∀ e ∈ es, e.node ∈ before
  stillOpen : stillOpen es = (above.filter fun m => decide (top.depth ≤ m.depth)).reverse

theorem Event.log_nil (top : Node) : Log top [] top.ancestors [] where
  nodes := nofun
  stillOpen := by
    rw [← Node.ancestorsWithin, Node.ancestorsWithin_self]
    rfl

/-- Writing down the events of a walk from `top` keeps up that the nodes that are open are those
above. -/
theorem keepsUp_log (top : Node) : KeepsUp top (fun es e => es ++ [e]) (Event.Log top) where
  enter n before after es h hd hes := by
    refine ⟨fun e he => ?_, ?_⟩
    · rcases List.mem_append.1 he with he | he
      · exact List.mem_append_left _ (hes.nodes e he)
      · rw [List.mem_singleton.1 he]
        exact List.mem_append_right _ (List.mem_singleton_self n)
    · have hnew : .exit n ∉ es := fun he => Node.not_mem_of_preorder_eq h (hes.nodes _ he)
      rw [stillOpen_enter hnew, hes.stillOpen, Node.filter_depth_ancestors hd,
        List.reverse_cons, Node.ancestorsWithin]
  exit n before after es h hd hes := by
    refine ⟨fun e he => ?_, ?_⟩
    · rcases List.mem_append.1 he with he | he
      · exact hes.nodes e he
      · rw [List.mem_singleton.1 he]
        exact List.mem_append_right _ n.self_mem_preorder
    · rw [stillOpen_exit, hes.stillOpen, Node.filter_depth_ancestors hd, List.filter_reverse,
        Node.filter_ne_ancestorsWithin, Node.ancestorsWithin]

theorem foldl_write_down (es done : List Event) :
    es.foldl (fun done e => done ++ [e]) done = done ++ es := by
  rw [List.foldl_append_eq_append, ← List.flatMap_def, List.flatMap_singleton']

section Moments

variable {top n : Node} {done todo : List Event} {e : Event}

theorem found_log (h : top.events = done ++ e :: todo) :
    KeepsUp.Found top (Event.Log top) (e, done) := by
  have hfound := (keepsUp_log top).moment (Event.log_nil top) h
  rwa [foldl_write_down, List.nil_append] at hfound

theorem stillOpen_of_events (h : top.events = done ++ e :: todo) :
    stillOpen done = (e.around top).reverse := by
  have hfound := found_log h
  cases e with
  | enter n =>
    obtain ⟨before, after, -, hlog⟩ := hfound
    exact hlog.stillOpen
  | exit n =>
    obtain ⟨before, after, hn, hlog⟩ := hfound
    have hmem : n ∈ top.preorder := by rw [hn]; simp [n.self_mem_preorder]
    rw [hlog.stillOpen, Node.filter_depth_ancestors (Node.depth_le_of_mem_preorder hmem)]
    rfl

theorem stillOpen_of_enter (h : top.events = done ++ .enter n :: todo) :
    stillOpen (done ++ [.enter n]) = stillOpen done ++ [n] := by
  obtain ⟨before, after, hn, hlog⟩ := found_log h
  exact stillOpen_enter fun he => Node.not_mem_of_preorder_eq hn (hlog.nodes _ he)

theorem stillOpen_of_exit (h : top.events = done ++ .exit n :: todo) :
    stillOpen done = stillOpen (done ++ [.exit n]) ++ [n] := by
  rw [stillOpen_exit, stillOpen_of_events h, Event.around, List.filter_reverse,
    Node.filter_ne_ancestorsWithin, List.reverse_cons]

theorem stillOpen_events (top : Node) : stillOpen top.events = [] := by
  have hlog := (keepsUp_log top).foldl_visit top [] [] [] (by simp) (Nat.le_refl _)
    (Event.log_nil top)
  rw [foldl_write_down, ← Node.events_eq_visit] at hlog
  rw [← List.nil_append top.events, hlog.stillOpen, ← Node.ancestorsWithin,
    Node.ancestorsWithin_self]
  rfl

end Moments

/-! ## The counters -/

theorem Nesting.opened_reverse (ns : List Node) : opened ns.reverse = opened ns := by
  simp [opened]

theorem eq_take_append_of_getElem? {α : Type} {as : List α} {a : α} {k : Nat}
    (h : as[k]? = some a) : as = as.take k ++ a :: as.drop (k + 1) := by
  obtain ⟨hk, rfl⟩ := List.getElem?_eq_some_iff.1 h
  rw [← List.drop_eq_getElem_cons hk, List.take_append_drop]

namespace Rule

variable (rule : Rule) (source : Bytes) {top : Node} {done todo : List Event} {e : Event}

theorem nesting_of_events (h : top.events = done ++ e :: todo) :
    (done.foldl (rule.hooks source).handle {}).nesting = .opened (e.around top) := by
  have hfound := (rule.keepsUp_passAt source top).moment (rule.passAt_start source top).symm h
  cases e with
  | enter n =>
    obtain ⟨before, after, -, hpass⟩ := hfound
    rw [hpass]
    rfl
  | exit n =>
    obtain ⟨before, after, hn, hpass⟩ := hfound
    have hmem : n ∈ top.preorder := by rw [hn]; simp [n.self_mem_preorder]
    rw [hpass, passAt]
    dsimp only
    rw [Node.filter_depth_ancestors (Node.depth_le_of_mem_preorder hmem)]
    rfl

theorem nesting_walk (top : Node) : (top.walk (rule.hooks source) {}).nesting = {} := by
  have hrun := (rule.keepsUp_passAt source top).foldl_visit top [] [] {} (by simp)
    (Nat.le_refl _) (rule.passAt_start source top).symm
  rw [Node.walk, Node.events_eq_visit, hrun, passAt]
  dsimp only
  rw [← Node.ancestorsWithin, Node.ancestorsWithin_self]
  rfl

/-- After any number of events, the counters count the nodes that are open. -/
theorem nesting_take (top : Node) (k : Nat) :
    ((top.events.take k).foldl (rule.hooks source).handle {}).nesting =
      .opened (stillOpen (top.events.take k)) := by
  cases hk : top.events[k]? with
  | some e =>
    have hsplit := eq_take_append_of_getElem? hk
    rw [rule.nesting_of_events source hsplit, stillOpen_of_events hsplit, Nesting.opened_reverse]
  | none =>
    rw [List.take_of_length_le (List.getElem?_eq_none_iff.1 hk), stillOpen_events]
    exact rule.nesting_walk source top

/-- **The counters of a walk count the nodes that are open.** Let the rule walk from any node of
any tree, and let any number of events have happened. Then its counters are the numbers of named
generators and of named yields among the nodes that have been entered and not left; so neither
is ever negative. An event that enters a node puts it behind those that are open, and one that
leaves a node takes off the last of them, which is this node. When the walk has ended, both
counters are what they were at its start. -/
theorem counters_count_open_nodes (rule : Rule) (source : Bytes) (top : Node) (k : Nat) :
    let done := top.events.take k
    let nesting := (done.foldl (rule.hooks source).handle {}).nesting
    let still := stillOpen done
    (∀ n, n ∈ still ↔ .enter n ∈ done ∧ .exit n ∉ done) ∧ still.Nodup ∧
    nesting.generators = still.countP (fun n => n.named && n.isGenerator) ∧
    nesting.yields = still.countP (fun n => n.named && n.kind == "yield_expression") ∧
    0 ≤ nesting.generators ∧ 0 ≤ nesting.yields ∧
    (∀ n, top.events[k]? = some (.enter n) → stillOpen (top.events.take (k + 1)) = still ++ [n]) ∧
    (∀ n, top.events[k]? = some (.exit n) → still = stillOpen (top.events.take (k + 1)) ++ [n]) ∧
    (top.walk (rule.hooks source) {}).nesting = {} := by
  intro done nesting still
  have hnesting : nesting = .opened still := rule.nesting_take source top k
  have hentered : (done.filterMap Event.entered?).Nodup := by
    have hall : top.events.filterMap Event.entered? = top.preorder := by
      rw [Node.events_eq_visit, Node.filterMap_entered?_visit]
    exact top.nodup_preorder.sublist (hall ▸ (List.take_sublist k _).filterMap _)
  refine ⟨fun n => Event.mem_stillOpen, Event.nodup_stillOpen hentered, ?_, ?_, ?_, ?_,
    fun n hn => ?_, fun n hn => ?_, rule.nesting_walk source top⟩
  · rw [hnesting]
    rfl
  · rw [hnesting]
    rfl
  · rw [hnesting]
    exact Int.natCast_nonneg _
  · rw [hnesting]
    exact Int.natCast_nonneg _
  · rw [List.take_add_one, hn]
    exact stillOpen_of_enter (eq_take_append_of_getElem? hn)
  · rw [List.take_add_one, hn]
    exact stillOpen_of_exit (eq_take_append_of_getElem? hn)

end Rule

open NestedSaga in
/-- When the walk over the saga leaves the inner yield, this is the last of the open nodes, of
which two are yields and one is a generator. -/
theorem counters_nestedSaga :
    let top := Node.ofTree (tree true false false)
    let done := top.events.take 30
    let nesting := (done.foldl ((({} : Rule).hooks (source false false)).handle) {}).nesting
    ∃ n, top.events[30]? = some (.exit n) ∧ n.span.startByte = 59 ∧
      stillOpen done = stillOpen (top.events.take 31) ++ [n] ∧
      nesting.generators = 1 ∧ nesting.yields = 2 := by
  intro top done nesting
  obtain ⟨-, -, hgenerators, hyields, -, -, -, hexit, -⟩ :=
    ({} : Rule).counters_count_open_nodes (source false false) top 30
  have hevent : ∃ n ∈ top.preorder, top.events[30]? = some (.exit n) ∧ n.span.startByte = 59 := by
    decide +kernel
  obtain ⟨n, -, hn, hstart⟩ := hevent
  refine ⟨n, hn, hstart, hexit n hn, hgenerators.trans ?_, hyields.trans ?_⟩
  · decide +kernel
  · decide +kernel

end YieldLint
