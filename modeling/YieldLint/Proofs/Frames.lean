/-
What a call of a tool leaves alone.

`KeepsFiles`, `KeepsStatuses` and `KeepsDocuments` say for the three parts of a session
which changes are left to a tool, and every call keeps to them whatever it answers
(`tools_keep_their_frame`). A call that ends in an error has looked at files and done nothing
else, so it leaves files and statuses as they were, unless the error is that a write broke off
(`looks_or_brokeOff_of_declines`). To lint the workspace adds documents under the paths that are
reported for its sources, and such a path may be that of another file: `unframed_twinSagas`.
-/
import YieldLint.Proofs.Atomic
import YieldLint.Proofs.Discovery
import YieldLint.Proofs.Locality

namespace YieldLint

namespace Session

/-! ## What each tool may change -/

/-- The statuses of a session, none if no workspace is loaded. -/
def statuses (s : Session) : Statuses :=
  match s.workspace? with
  | some w => w.statuses
  | none => .empty

/-- The documents that are kept in a session, none if no workspace is loaded. -/
def documents (s : Session) : Table String Document :=
  match s.workspace? with
  | some w => w.linter.cache
  | none => .empty

/-- No file changes, or a tool that fixes has written the one at its path. -/
def KeepsFiles (s : Session) (t : Tool) (s' : Session) : Prop :=
  s'.files = s.files ∨ ∃ w path location old new, s.workspace? = some w ∧
    t.fixes? = some path ∧ s.files.locate? (w.linter.resolve path) = some location ∧
    s'.files = s.files.store location new ∧
    FileSystem.Overwritten location old new s.files s'.files

/-- No status changes but those that a tool is for. -/
def KeepsStatuses (s : Session) (t : Tool) (s' : Session) : Prop :=
  match t with
  | .loadWorkspace root => s'.statuses = if s.files.isDir root then .empty else s.statuses
  | .applyFix path _ => ∃ line, Statuses.KeptBut (OnLine path line) s.statuses s'.statuses
  | .verifyFix path line => Statuses.KeptBut (OnLine path line) s.statuses s'.statuses
  | .fixAll path false =>
    Statuses.KeptBut (fun key => key.path = Path.normalize path) s.statuses s'.statuses
  | _ => s'.statuses = s.statuses

/-- No document changes but that of the path that a tool is asked about. To lint the
workspace adds documents under the paths of its files, and to load one drops all. -/
def KeepsDocuments (s : Session) (t : Tool) (s' : Session) : Prop :=
  match t with
  | .loadWorkspace root => s'.documents = if s.files.isDir root then .empty else s.documents
  | .lintWorkspace => ∀ key, s'.documents.get? key = s.documents.get? key ∨
      s.documents.get? key = none ∧ ∃ w, s.workspace? = some w ∧
        ∃ path ∈ w.linter.discover s.files, key = w.linter.resolve path
  | _ => ∀ key, (∀ w path, s.workspace? = some w → t.path? = some path →
      key ≠ w.linter.resolve path) → s'.documents.get? key = s.documents.get? key

/-- An answer that tells of an error, or none. -/
def Declines : Except Failure String → Prop
  | .ok text => "Error".toList <+: text.toList
  | .error _ => True

/-- A call of a tool that fixes has opened its file and not stored all that it wrote there. It
tells why, and what it could store is left. -/
def BrokeOff (parser : Parser) (s : Session) (t : Tool) : Prop :=
  ∃ w path location fault new start, s.workspace? = some w ∧ t.fixes? = some path ∧
    s.files.BreaksOff (w.linter.resolve path) location fault ∧
    s.call parser t = (s.broken parser w path location fault new, .ok (start ++ fault.reason))

/-! ## Calls that only look -/

section Looks

variable {parser : Parser} {s s' : Session} {w : Workspace} {path : String}

theorem Looks.statuses_eq (h : Looks parser s s') : s'.statuses = s.statuses := by
  rcases h with rfl | ⟨w, linter, hw, -, rfl⟩
  · rfl
  · simp only [statuses, withWorkspace, hw]

theorem looks_looking (hw : s.workspace? = some w) (path : String) :
    Looks parser s (s.withWorkspace (s.looking parser w path)) :=
  .inr ⟨w, _, hw, .lintFile parser s.files w.linter path, rfl⟩

/-- A tool that needs a workspace does nothing without one. -/
theorem call_of_none (parser : Parser) (t : Tool) (hw : s.workspace? = none)
    (ht : ∀ root, t ≠ .loadWorkspace root) : (s.call parser t).1 = s := by
  cases t with
  | loadWorkspace root => exact absurd rfl (ht root)
  | listViolations path => simp [call, listViolations, hw]
  | lintWorkspace => simp [call, lintWorkspace, hw]
  | proposeFix path line => simp [call, proposeFix, hw]
  | applyFix path line => simp [call, applyFix, hw]
  | verifyFix path line => simp [call, verifyFix, hw]
  | fixAll path dryRun => simp [call, fixAll, hw]
  | explainRule ruleId => rfl
  | listEffects => rfl

/-- A dry run looks at the file, and does nothing else. -/
theorem looks_fixAll_dry (parser : Parser) (s : Session) (path : String) :
    Looks parser s (s.call parser (.fixAll path true)).1 := by
  cases hw : s.workspace? with
  | none => exact .inl (call_of_none parser _ hw (by simp))
  | some w =>
    have hcall : FixesFile parser s w path true (s.call parser (.fixAll path true)) :=
      fixesFile_fixAll hw
    generalize s.call parser (.fixAll path true) = r at hcall ⊢
    cases hcall with
    | fixed dry | brokenOff dry => cases dry
    | _ => exact looks_looking hw path

/-! ## Calls that end in an error -/

theorem not_declines {text : String} {c : Char} (h : text.toList.head? = some c)
    (hc : c ≠ 'E') : ¬Declines (.ok text) := by
  rintro ⟨rest, htext⟩
  rw [← htext] at h
  exact hc (Option.some.inj h).symm

theorem looks_or_brokeOff_applyFix {line : Int} (hw : s.workspace? = some w)
    (h : Declines (s.call parser (.applyFix path line)).2) :
    Looks parser s (s.call parser (.applyFix path line)).1 ∨
      BrokeOff parser s (.applyFix path line) := by
  have hcall : FixesLine parser s w path line (s.call parser (.applyFix path line)) :=
    fixesLine_applyFix hw
  rw [BrokeOff]
  generalize s.call parser (.applyFix path line) = r at hcall h ⊢
  cases hcall with
  | @written target _ edited _ _ _ =>
    obtain ⟨c, hc, hhead⟩ := head?_appliedText path target.note edited.applied edited.skipped
    refine absurd h (not_declines hhead ?_)
    rcases hc with rfl | rfl <;> decide
  | brokenOff makes breaks => exact .inr ⟨w, path, _, _, _, _, hw, rfl, breaks, rfl⟩
  | _ => exact .inl (looks_looking hw path)

theorem looks_or_brokeOff_fixAll {dryRun : Bool} (hw : s.workspace? = some w)
    (h : Declines (s.call parser (.fixAll path dryRun)).2) :
    Looks parser s (s.call parser (.fixAll path dryRun)).1 ∨
      BrokeOff parser s (.fixAll path dryRun) := by
  have hcall : FixesFile parser s w path dryRun (s.call parser (.fixAll path dryRun)) :=
    fixesFile_fixAll hw
  rw [BrokeOff]
  generalize s.call parser (.fixAll path dryRun) = r at hcall h ⊢
  cases hcall with
  | fixed dry dirty fix =>
    refine absurd h (not_declines (c := '#') ?_ (by decide))
    iterate 7 refine head?_toList_append ?_ _
    decide +kernel
  | brokenOff dry dirty makes breaks =>
    subst dry
    exact .inr ⟨w, path, _, _, _, _, hw, rfl, breaks, rfl⟩
  | _ => exact .inl (looks_looking hw path)

/-- The check of a line ends in no error. -/
theorem not_declines_verifyFix (hw : s.workspace? = some w) (line : Int) :
    ¬Declines (s.call parser (.verifyFix path line)).2 := by
  rw [call, verifyFix_eq parser path line hw]
  dsimp only [Prod.map]
  split
  · refine not_declines (c := '*') ?_ (by decide)
    iterate 2 refine head?_toList_append ?_ _
    decide +kernel
  · refine not_declines (c := '*') ?_ (by decide)
    iterate 6 refine head?_toList_append ?_ _
    decide +kernel

theorem looks_loadWorkspace_of_declines {root : String}
    (h : Declines (s.call parser (.loadWorkspace root)).2) :
    Looks parser s (s.call parser (.loadWorkspace root)).1 := by
  simp only [call, loadWorkspace] at h ⊢
  split at h
  · refine absurd h (not_declines (c := 'W') ?_ (by decide))
    iterate 6 refine head?_toList_append ?_ _
    decide +kernel
  · rename_i hroot
    rw [if_neg hroot]
    exact .inl rfl

/-- A call that ends in an error has looked at files, and done nothing else, or its write
broke off. -/
theorem looks_or_brokeOff_of_declines {t : Tool} (h : Declines (s.call parser t).2) :
    Looks parser s (s.call parser t).1 ∨ BrokeOff parser s t := by
  cases t with
  | loadWorkspace root => exact .inl (looks_loadWorkspace_of_declines h)
  | listViolations path => exact .inl (looks_listViolations parser s path)
  | lintWorkspace => exact .inl (looks_lintWorkspace parser s)
  | explainRule ruleId => exact .inl (.inl rfl)
  | proposeFix path line => exact .inl (looks_proposeFix parser s path line)
  | applyFix path line =>
    cases hw : s.workspace? with
    | none => exact .inl (.inl (call_of_none parser _ hw (by simp)))
    | some w => exact looks_or_brokeOff_applyFix hw h
  | verifyFix path line =>
    cases hw : s.workspace? with
    | none => exact .inl (.inl (call_of_none parser _ hw (by simp)))
    | some w => exact absurd h (not_declines_verifyFix hw line)
  | fixAll path dryRun =>
    cases hw : s.workspace? with
    | none => exact .inl (.inl (call_of_none parser _ hw (by simp)))
    | some w => exact looks_or_brokeOff_fixAll hw h
  | listEffects => exact .inl (.inl rfl)

theorem BrokeOff.statuses_eq {t : Tool} (h : BrokeOff parser s t) :
    (s.call parser t).1.statuses = s.statuses := by
  obtain ⟨w, path, location, fault, new, start, hw, -, -, hcall⟩ := h
  rw [hcall]
  simp only [statuses, broken, looking, hw]

end Looks

/-! ## All tools -/

section Keeps

variable (parser : Parser) (s : Session) (t : Tool)

theorem keepsFiles_call : KeepsFiles s t (s.call parser t).1 := by
  have hkeeps {w : Workspace} {path : String} {location : Location} {new : Bytes}
      (hw : s.workspace? = some w) (ht : t.fixes? = some path)
      (hopens : s.files.writable (w.linter.resolve path) = .ok location)
      (hfiles : (s.call parser t).1.files = s.files.store location new) :
      KeepsFiles s t (s.call parser t).1 := by
    obtain ⟨hleads, -, old, hold⟩ := FileSystem.writable_eq_ok_iff.1 hopens
    refine .inr ⟨w, path, location, old, new, hw, ht, hleads, hfiles, ?_⟩
    rw [hfiles]
    exact .of_store hold new
  rcases files_call parser s t with hsame |
    ⟨w, path, hw, ht, ⟨new, -, hwrite⟩ | ⟨location, fault, new, hbreaks, hfiles⟩⟩
  · exact .inl hsame
  · obtain ⟨location, hopens, -, hfiles⟩ := FileSystem.write_eq_ok_iff.1 hwrite
    exact hkeeps hw ht hopens hfiles
  · exact hkeeps hw ht hbreaks.opens hfiles

theorem keepsStatuses_call : KeepsStatuses s t (s.call parser t).1 := by
  cases t with
  | loadWorkspace root =>
    simp only [KeepsStatuses, call, loadWorkspace]
    split
    · rfl
    · rfl
  | listViolations path => exact (looks_listViolations parser s path).statuses_eq
  | lintWorkspace => exact (looks_lintWorkspace parser s).statuses_eq
  | explainRule ruleId => rfl
  | proposeFix path line => exact (looks_proposeFix parser s path line).statuses_eq
  | applyFix path line =>
    cases hw : s.workspace? with
    | none =>
      rw [call_of_none parser _ hw (by simp)]
      exact ⟨line, fun _ _ => rfl⟩
    | some w =>
      obtain ⟨near, w', hw', h⟩ := onlyAt_applyFix parser hw path line
      refine ⟨near, ?_⟩
      simp only [statuses, hw, call, hw']
      exact h.statuses
  | verifyFix path line =>
    cases hw : s.workspace? with
    | none =>
      rw [call_of_none parser _ hw (by simp)]
      exact fun _ _ => rfl
    | some w =>
      obtain ⟨w', hw', h⟩ := onlyAt_verifyFix parser hw path line
      simp only [KeepsStatuses, statuses, hw, call, Prod.map, id, hw']
      exact h.statuses
  | fixAll path dryRun =>
    cases dryRun with
    | true => exact (looks_fixAll_dry parser s path).statuses_eq
    | false =>
      cases hw : s.workspace? with
      | none =>
        rw [call_of_none parser _ hw (by simp)]
        exact fun _ _ => rfl
      | some w =>
        obtain ⟨w', hw', h⟩ := onlyAt_fixAll parser hw path false
        simp only [KeepsStatuses, statuses, hw, call, hw']
        exact (h.mono fun _ h => h.2).statuses
  | listEffects => rfl

/-- A tool that is asked about a path changes no document but the one under it. -/
theorem documents_call_of_path {t : Tool} {path : String} (ht : t.path? = some path)
    (key : String) (hkey : ∀ w path, s.workspace? = some w → t.path? = some path →
      key ≠ w.linter.resolve path) :
    (s.call parser t).1.documents.get? key = s.documents.get? key := by
  cases hw : s.workspace? with
  | none => rw [call_of_none parser t hw fun root h => by rw [h] at ht; cases ht]
  | some w =>
    obtain ⟨w', hw', h⟩ := onlyAt_call parser ht hw
    simp only [documents, hw, hw']
    exact h.linter.elsewhere key (hkey w path hw ht)

theorem keepsDocuments_call : KeepsDocuments s t (s.call parser t).1 := by
  cases t with
  | loadWorkspace root =>
    simp only [KeepsDocuments, call, loadWorkspace]
    split
    · rfl
    · rfl
  | lintWorkspace =>
    intro key
    cases hw : s.workspace? with
    | none =>
      rw [call_of_none parser _ hw (by simp)]
      exact .inl rfl
    | some w =>
      have hcache := Linter.cache_foldl_reportFile parser s.files key (w.linter.discover s.files)
        (.empty, w.linter)
      simp only [documents, call, lintWorkspace, hw, withWorkspace, Prod.map, id,
        Linter.lintWorkspace_eq, Option.some.injEq, exists_eq_left']
      exact hcache
  | explainRule ruleId => exact fun _ _ => rfl
  | listEffects => exact fun _ _ => rfl
  | _ => exact documents_call_of_path parser s rfl

/-- **Tools change what they are for, and nothing else.** In whatever state a session is, and
whatever a tool answers: files change only if a fix is applied or all fixes are made, not
dry, and then only the one at the path; statuses change only when a workspace is loaded, by
a fix on one line of the path, by a check on the line asked for, and by all fixes on lines
of the path; a document changes only under the path that the tool is asked about, when all
are dropped as a workspace is loaded, and when one is added under the path that is reported
for a source file as the workspace is linted. Without a workspace, and when there is none to load, files and
statuses stay as they were. So they do in a call that ends in an error, but for a file that was
opened and to which not all could be written. -/
theorem tools_keep_their_frame (parser : Parser) (s : Session) (t : Tool) :
    let s' := (s.call parser t).1
    KeepsFiles s t s' ∧ KeepsStatuses s t s' ∧ KeepsDocuments s t s' ∧
      (s.workspace? = none ∨ (∃ root, t = .loadWorkspace root ∧ s.files.isDir root = false) →
        s'.files = s.files ∧ s'.statuses = s.statuses) ∧
      (Declines (s.call parser t).2 →
        s'.statuses = s.statuses ∧ (s'.files = s.files ∨ BrokeOff parser s t)) := by
  refine ⟨keepsFiles_call parser s t, keepsStatuses_call parser s t,
    keepsDocuments_call parser s t, ?_, fun hdeclines => ?_⟩
  · rintro (hw | ⟨root, rfl, hroot⟩)
    · by_cases ht : ∀ root, t ≠ .loadWorkspace root
      · rw [call_of_none parser t hw ht]
        exact ⟨rfl, rfl⟩
      · obtain ⟨root, rfl⟩ : ∃ root, t = .loadWorkspace root := by simpa using ht
        simp only [call, loadWorkspace]
        split
        · exact ⟨rfl, by simp [statuses, withWorkspace, hw]⟩
        · exact ⟨rfl, rfl⟩
    · simp [call, loadWorkspace, hroot]
  · rcases looks_or_brokeOff_of_declines hdeclines with hlooks | hbroke
    · exact ⟨hlooks.statuses_eq, .inl hlooks.files_eq⟩
    · exact ⟨hbroke.statuses_eq, .inr hbroke⟩

end Keeps

end Session

namespace TwinSagas

open NestedSaga (source parser document)

theorem sources_entry (content : Bytes) :
    (entry content).sources = [["node_modules\\x.js"]] := by
  have hname : (Language.ofPath? "node_modules\\x.js").isSome = true := by decide +kernel
  simp [entry, Entry.sources, Entry.sourcesIn, Entry.sourcesAt, Entry.skippedDirs, hname]

theorem discover_files (content : Bytes) (full : Bool) :
    Linter.discover (files content full) { root := "ws" } = ["node_modules/x.js"] := by
  have hroot : FileSystem.entry? (files content full) "ws" = some (entry content) := by rfl
  have hreport : Location.report ["node_modules\\x.js"] = "node_modules/x.js" := by decide +kernel
  rw [Linter.discover_eq hroot, sources_entry, List.map_singleton, hreport]
  simp [Text.ascending]

theorem resolve_slash :
    Linter.resolve { root := "ws" } "node_modules/x.js" = "ws/node_modules/x.js" := by
  decide +kernel

theorem found_files (full : Bool) :
    Linter.found parser (files (source false true) full) { root := "ws" } "ws/node_modules/x.js" =
      some (document false true) := by
  rw [Linter.found, Table.get?_empty]
  exact NestedSaga.load?_source (fun _ => rfl) (makesFixed full).known (read_files _ full)

/-- The workspace is loaded. -/
def loaded (content : Bytes) (full : Bool) : Session :=
  ⟨files content full, some { linter := { root := "ws" } }⟩

theorem after_loadWorkspace (content : Bytes) (full : Bool) :
    Session.after parser { files := files content full } [.tool (.loadWorkspace "ws")] =
      loaded content full := by
  rfl

theorem fixAll_loaded :
    (loaded (source false true) true).fixAll parser "node_modules/x.js" false =
      ((loaded (source false true) true).broken parser { linter := { root := "ws" } }
        "node_modules/x.js" ["ws", "node_modules", "x.js"]
        ⟨0, "[Errno 28] No space left on device"⟩ (source true true),
        .ok ("Error applying fixes: " ++ "[Errno 28] No space left on device")) := by
  have hmakes := makesFixed true
  have hbreaks := breaksOff_files (source false true)
  rw [← resolve_slash] at hmakes hbreaks
  refine Session.fixAll_of_breaksOff (s := loaded (source false true) true) rfl ?_ hmakes hbreaks
  rw [Session.reported, Linter.lintFile_fst, resolve_slash, loaded, found_files]
  decide +kernel

end TwinSagas

open TwinSagas in
open NestedSaga (source parser document) in
/-- The workspace is linted, and the document of a file is added that is not among those found
in it. And if the disk is full, all fixes of that file end in an error, and it is empty. -/
theorem unframed_twinSagas :
    let s (full : Bool) := Session.after parser { files := files (source false true) full }
      [.tool (.loadWorkspace "ws")]
    let linted := ((s false).call parser .lintWorkspace).1
    let fixed := (s true).call parser (.fixAll "node_modules/x.js" false)
    (s false).files.root.get? ["ws"] = some (entry (source false true)) ∧
      (entry (source false true)).sources = [["node_modules\\x.js"]] ∧
      (s false).files.locate? "ws/node_modules/x.js" = some ["ws", "node_modules", "x.js"] ∧
      (s false).documents.get? "ws/node_modules/x.js" = none ∧
      linted.documents.get? "ws/node_modules/x.js" = some (document false true) ∧
      Session.Declines fixed.2 ∧
      (s true).files.read "ws/node_modules/x.js" = .ok (source false true) ∧
      fixed.1.files.read "ws/node_modules/x.js" = .ok [] := by
  intro s linted fixed
  have hs (full : Bool) : s full = loaded (source false true) full := after_loadWorkspace _ full
  have hlinted : linted.documents.get? "ws/node_modules/x.js" = some (document false true) := by
    have hcall : linted.documents =
        (Linter.lintWorkspace parser (files (source false true) false) { root := "ws" }).2.cache := by
      dsimp only [linted]
      rw [hs]
      rfl
    rw [hcall, Linter.lintWorkspace_eq, discover_files, List.foldl_cons, List.foldl_nil,
      Linter.reportFile_snd, Linter.cache_lintFile, if_pos resolve_slash.symm, found_files]
  have hfixed : fixed =
      (loaded (source false true) true).fixAll parser "node_modules/x.js" false := by
    dsimp only [fixed]
    rw [hs, Session.call]
  rw [fixAll_loaded] at hfixed
  refine ⟨by rw [hs]; rfl, sources_entry _, by rw [hs]; rfl, by rw [hs]; rfl, hlinted, ?_, ?_, ?_⟩
  · rw [hfixed]
    exact ⟨_, rfl⟩
  · rw [hs]
    exact read_files _ _
  · rw [hfixed]
    exact read_of_broken _

end YieldLint
