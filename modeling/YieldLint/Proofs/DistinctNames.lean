/-
Names stay distinct.

A directory tree holds entries in rows, so that nothing in its form keeps two entries of one
directory apart. What does is how trees are changed: writing puts an entry in the place of
the one with its name (`Entry.DistinctNames.place`), and removing leaves names out or alone
(`Entry.DistinctNames.remove`). So tools, fixes and changes from outside keep the names in
every directory distinct, and with these whatever a session does (`distinctNames_after`);
what the search says of trees with distinct names it says of every moment of a session that
begins with one (`distinctNames_of_leads`).
-/
import YieldLint.Proofs.Discovery
import YieldLint.Proofs.Spellings

namespace YieldLint

theorem eq_or_mem_of_mem_putEntry {κ α : Type} [DecidableEq κ] {k : κ} {v : α} {e : κ × α}
    {l : List (κ × α)} (h : e ∈ putEntry k v l) : e = (k, v) ∨ e ∈ l := by
  induction l with
  | nil => exact .inl (List.mem_singleton.1 h)
  | cons first l ih =>
    rw [putEntry] at h
    split at h
    · rcases List.mem_cons.1 h with rfl | h
      · exact .inl rfl
      · exact .inr (List.mem_cons_of_mem _ h)
    · rcases List.mem_cons.1 h with rfl | h
      · exact .inr List.mem_cons_self
      · exact (ih h).imp_right (List.mem_cons_of_mem _)

namespace Entry.DistinctNames

variable {e child : Entry} {es : List (String × Entry)} {name : String}

/-! ## One tree -/

theorem lookup (h : (Entry.dir es).DistinctNames) (hchild : es.lookup name = some child) :
    child.DistinctNames := by
  cases h with
  | dir names below => exact below _ ((lookup_eq_some_iff_mem names).1 hchild)

/-- What is below a tree with distinct names has distinct names. -/
theorem get? {location : Location} (h : e.DistinctNames) (hget : e.get? location = some child) :
    child.DistinctNames := by
  induction location generalizing e with
  | nil => exact Option.some.inj hget ▸ h
  | cons name rest ih =>
    obtain ⟨next, hnext, hrest⟩ := Option.bind_eq_some_iff.1 hget
    cases e with
    | file content => cases hnext
    | dir es => exact ih (h.lookup hnext) hrest

theorem putEntry (h : (Entry.dir es).DistinctNames) (name : String)
    (hchild : child.DistinctNames) :
    (Entry.dir (YieldLint.putEntry name child es)).DistinctNames := by
  cases h with
  | dir names below =>
    refine .dir ((Table.mk es names).put name child).nodup fun e he => ?_
    rcases eq_or_mem_of_mem_putEntry he with rfl | he
    · exact hchild
    · exact below e he

/-- Placing what has distinct names keeps names distinct. -/
theorem place {new : Option Entry → Entry}
    (hnew : ∀ old, (∀ e ∈ old, e.DistinctNames) → (new old).DistinctNames) :
    ∀ (location : Location) {old : Option Entry}, (∀ e ∈ old, e.DistinctNames) →
      (Entry.place new location old).DistinctNames
  | [], _, h => hnew _ h
  | name :: rest, none, _ => by
    have hrest : (Entry.place new rest none).DistinctNames := place hnew rest nofun
    exact .dir (List.nodup_singleton name) (List.forall_mem_singleton.2 hrest)
  | name :: rest, some (.dir es), h =>
    (h _ rfl).putEntry name (place hnew rest fun _ hold => (h _ rfl).lookup hold)
  | _ :: _, some (.file content), _ => .file content

theorem write (h : e.DistinctNames) (location : Location) (content : Bytes) :
    (e.write location content).DistinctNames :=
  place (fun _ _ => .file content) location fun _ he => Option.some.inj he ▸ h

theorem makeDir (h : e.DistinctNames) (location : Location) :
    (e.makeDir location).DistinctNames := by
  refine place (fun old hold => ?_) location fun _ he => Option.some.inj he ▸ h
  cases old with
  | none => exact .dir List.nodup_nil nofun
  | some e => exact hold e rfl

theorem remove : ∀ (location : Location) {e : Entry}, e.DistinctNames →
    (Entry.remove location e).DistinctNames
  | [], _, h => h
  | [name], .file content, h => h
  | [name], .dir es, .dir names below =>
    .dir ((List.filter_sublist.map _).nodup names) fun e he => below e (List.mem_of_mem_filter he)
  | name :: next :: rest, .file content, h => h
  | name :: next :: rest, .dir es, .dir names below => by
    have hnames : (es.map fun e => if e.1 = name then (name, Entry.remove (next :: rest) e.2)
        else e).map (·.1) = es.map (·.1) := by
      rw [List.map_map]
      refine List.map_congr_left fun e _ => ?_
      by_cases h : e.1 = name
      · simp [h]
      · simp [h]
    refine .dir (hnames ▸ names) fun e he => ?_
    obtain ⟨e', he', rfl⟩ := List.mem_map.1 he
    split
    · exact remove (next :: rest) (below e' he')
    · exact below e' he'

end Entry.DistinctNames

/-! ## The files of a session -/

namespace FileSystem

variable {fs fs' : FileSystem}

theorem distinctNames_write {path : String} {content : Bytes} (h : fs.root.DistinctNames)
    (hwrite : fs.write path content = .ok fs') : fs'.root.DistinctNames := by
  obtain ⟨location, -, -, rfl⟩ := write_eq_ok_iff.1 hwrite
  exact h.write location content

theorem distinctNames_attempt {α : Type} {path : String} {Kept : α → Prop}
    {Made : Bytes → α → Prop} {came : Except Failure α × FileSystem} (h : fs.root.DistinctNames)
    (hattempt : Fixer.Attempt fs path Kept Made came) : came.2.root.DistinctNames := by
  cases hattempt with
  | failed e => exact h
  | kept kept => exact h
  | written made write => exact distinctNames_write h write
  | brokenOff made breaks => exact h.write _ _

theorem distinctNames_change {c : Change} (h : fs.root.DistinctNames)
    (hchange : fs.change c = .ok fs') : fs'.root.DistinctNames := by
  cases c with
  | write path content =>
    simp only [change, create] at hchange
    split at hchange
    · cases hchange
    · cases hchange
      exact h.write _ content
  | delete path =>
    cases hchange
    rw [FileSystem.remove]
    split
    · exact h.remove _
    · exact h
  | makeDir path =>
    cases hchange
    exact h.makeDir _
  | denyRead path => cases hchange; exact h
  | denyWrite path => cases hchange; exact h
  | failWrites path fault? => cases hchange; exact h
  | allowAll => cases hchange; exact h

end FileSystem

namespace Session

variable {s : Session}

theorem distinctNames_onWorkspace {f : Workspace → Session × Except Failure Response}
    (h : s.files.root.DistinctNames) (hf : ∀ w, (f w).1.files.root.DistinctNames) :
    (s.onWorkspace f).1.files.root.DistinctNames := by
  rw [onWorkspace]
  split
  · exact hf _
  · exact h

theorem distinctNames_step (parser : Parser) (h : s.files.root.DistinctNames) (c : Command) :
    (s.step parser c).1.files.root.DistinctNames := by
  cases c with
  | tool t =>
    have hcall : (s.step parser (.tool t)).1 = (s.call parser t).1 := rfl
    rw [hcall]
    rcases files_call parser s t with hsame |
      ⟨w, path, -, -, ⟨new, -, hwrite⟩ | ⟨location, fault, new, -, hfiles⟩⟩
    · rwa [hsame]
    · exact FileSystem.distinctNames_write h hwrite
    · rw [hfiles]
      exact h.write location _
  | lintFile path => exact distinctNames_onWorkspace h fun _ => h
  | lintWorkspace => exact distinctNames_onWorkspace h fun _ => h
  | discover => exact distinctNames_onWorkspace h fun _ => h
  | invalidate path => exact distinctNames_onWorkspace h fun _ => h
  | fixFile path dryRun =>
    refine distinctNames_onWorkspace h fun w => ?_
    have hattempt := Fixer.attempt_fixing parser s.files w.linter path dryRun
    generalize (Fixer.fixing parser w.linter path dryRun).exec s.files = came at hattempt ⊢
    rcases came with ⟨e | r, files⟩
    · exact FileSystem.distinctNames_attempt h hattempt
    · exact FileSystem.distinctNames_attempt h hattempt
  | applyToFile path edits dryRun =>
    exact distinctNames_onWorkspace h fun w =>
      FileSystem.distinctNames_attempt h
        (Fixer.attempt_applying parser s.files path edits dryRun)
  | setRule rule => exact distinctNames_onWorkspace h fun _ => h
  | statuses => exact h
  | change c =>
    rw [step]
    split
    · rename_i files hchange
      exact FileSystem.distinctNames_change h hchange
    · exact h

/-- Whatever is done in a session, one thing after another, names stay distinct. -/
theorem distinctNames_after (parser : Parser) (cs : List Command)
    (h : s.files.root.DistinctNames) : (s.after parser cs).files.root.DistinctNames := by
  induction cs generalizing s with
  | nil => exact h
  | cons c cs ih => exact ih (distinctNames_step parser h c)

/-- At every moment of a session, what a path leads to has distinct names. -/
theorem distinctNames_of_leads (parser : Parser) (cs : List Command)
    (h : s.files.root.DistinctNames) {path : String} {e : Entry}
    (hleads : FileSystem.entry? (s.after parser cs).files path = some e) : e.DistinctNames := by
  obtain ⟨location, -, hget⟩ := Option.bind_eq_some_iff.1 hleads
  exact (distinctNames_after parser cs h).get? hget

end Session

end YieldLint
