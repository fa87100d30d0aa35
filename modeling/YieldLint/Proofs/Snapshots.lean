/-
What a document is that a linter keeps: the file of its key as it was at some moment since
the linter last forgot it.

`Forgets` says which commands make the linter forget a key: a request to do so, a look
that starts anew, a fix that writes the file under that key, and a workspace that is
loaded. Each command leaves under a key what was there before, unless it forgets it, or
what the file gives after the command (`recalls_step`); a command that fails to read or to
parse a file leaves nothing. A tool that looks at a file and then fails to write all of a fix
to it leaves what the file gave before (`CutsOff`). So whatever happens in a session and to the files, a document
that is kept is one that the file gave (`documents_are_snapshots`), and a look at its key
reports on it by the rule of that moment, wherever the file has got to by then.
-/
import YieldLint.Proofs.Calls
import YieldLint.Proofs.Rounds

namespace YieldLint

/-- The path of the file that a tool may write. -/
def Tool.fixes? : Tool → Option String
  | .applyFix path _ | .fixAll path false => some path
  | _ => none

namespace Session

/-! ## Runs of commands -/

/-- The session after some commands. -/
def after (parser : Parser) (s : Session) (cs : List Command) : Session := (s.run parser cs).1

section After

variable (parser : Parser) (s : Session)

@[simp] theorem after_nil : s.after parser [] = s := rfl

@[simp] theorem after_cons (c : Command) (cs : List Command) :
    s.after parser (c :: cs) = (s.step parser c).1.after parser cs := rfl

theorem after_append (cs ds : List Command) :
    s.after parser (cs ++ ds) = (s.after parser cs).after parser ds := by
  induction cs generalizing s with
  | nil => rfl
  | cons c cs ih => exact ih _

theorem after_concat (cs : List Command) (c : Command) :
    s.after parser (cs ++ [c]) = ((s.after parser cs).step parser c).1 := by
  rw [after_append]
  rfl

end After

/-! ## Forgetting -/

/-- The linter keeps a document under a key. -/
def Keeps (s : Session) (key : String) (d : Document) : Prop :=
  ∃ w, s.workspace? = some w ∧ w.linter.cache.get? key = some d

theorem not_keeps (files : FileSystem) (key : String) (d : Document) : ¬Keeps { files } key d := by
  rintro ⟨w, hw, -⟩
  cases hw

/-- A command makes the linter forget what it keeps under a key. -/
def Forgets (parser : Parser) (s : Session) (key : String) : Command → Prop
  | .tool (.loadWorkspace root) => s.files.isDir root = true
  | .tool (.applyFix path line) =>
    ∃ w, s.workspace? = some w ∧ key = w.linter.resolve path ∧ s.WritesLine parser w path line
  | .tool (.fixAll path dryRun) =>
    ∃ w, s.workspace? = some w ∧ key = w.linter.resolve path ∧
      dryRun = false ∧ s.reported parser w path ≠ [] ∧ s.WritesFile parser w path
  | .fixFile path dryRun =>
    ∃ w, s.workspace? = some w ∧ key = w.linter.resolve path ∧
      dryRun = false ∧ s.WritesFile parser w path
  | .tool (.verifyFix path _) | .invalidate path =>
    ∃ w, s.workspace? = some w ∧ key = w.linter.resolve path
  | _ => False

/-- A tool may write the file of a key, but what is written there breaks off. -/
def CutsOff (s : Session) (key : String) : Command → Prop
  | .tool t => ∃ w path location fault, s.workspace? = some w ∧ t.fixes? = some path ∧
      key = w.linter.resolve path ∧ s.files.BreaksOff key location fault
  | _ => False

/-- None of some commands makes the linter forget a key. -/
def Spares (parser : Parser) (key : String) : Session → List Command → Prop
  | _, [] => True
  | s, c :: cs => ¬s.Forgets parser key c ∧ Spares parser key (s.step parser c).1 cs

theorem Spares.concat {parser : Parser} {key : String} {c : Command} :
    ∀ {s : Session} {cs : List Command}, Spares parser key s cs →
      ¬(s.after parser cs).Forgets parser key c → Spares parser key s (cs ++ [c])
  | _, [], _, hc => ⟨hc, trivial⟩
  | _, _ :: _, h, hc => ⟨h.1, h.2.concat hc⟩

/-! ## What a command leaves -/

section Recalls

variable {parser : Parser} {s s' : Session} {w w' : Workspace} {l : Linter} {key : String}
  {d : Document} {gone cut : String → Prop}

/-- What the second session keeps under a key, the first has kept too, or the file has given
it and was cut off, and the key is not one of those that are gone; or the file gives it in the
end. -/
def Recalls (parser : Parser) (gone cut : String → Prop) (s s' : Session) : Prop :=
  ∀ key d, s'.Keeps key d →
    Document.load? parser s'.files key = some d ∨
      ¬gone key ∧ (s.Keeps key d ∨ cut key ∧ Document.load? parser s.files key = some d)

theorem exists_workspace_iff (hw : s.workspace? = some w) {p : Workspace → Prop} :
    (∃ w, s.workspace? = some w ∧ p w) ↔ p w := by
  simp [hw]

theorem not_exists_workspace (hw : s.workspace? = none) {p : Workspace → Prop} :
    ¬∃ w, s.workspace? = some w ∧ p w := by
  rintro ⟨w, hw', -⟩
  cases hw.symm.trans hw'

theorem recalls_of_keeps (hgone : ∀ key, ¬gone key)
    (h : ∀ key d, s'.Keeps key d → s.Keeps key d) : Recalls parser gone cut s s' :=
  fun key d hd => .inr ⟨hgone key, .inl (h key d hd)⟩

theorem recalls_refl (hgone : ∀ key, ¬gone key) (s : Session) : Recalls parser gone cut s s :=
  recalls_of_keeps hgone fun _ _ => id

theorem recalls_of_linter (hw : s.workspace? = some w) (hgone : ∀ key, ¬gone key)
    (hw' : s'.workspace? = some w') (hlooked : Linter.Looked parser s'.files w.linter w'.linter) :
    Recalls parser gone cut s s' := by
  intro key d hd
  cases hlooked.given key d ((exists_workspace_iff hw').1 hd) with
  | inl hkept => exact .inr ⟨hgone key, .inl ⟨w, hw, hkept⟩⟩
  | inr hload => exact .inl hload

theorem recalls_of_looks (hgone : ∀ key, ¬gone key) (h : Looks parser s s') :
    Recalls parser gone cut s s' := by
  rcases h with rfl | ⟨w, linter, hw, hlooked, rfl⟩
  · exact recalls_refl hgone s'
  · exact recalls_of_linter hw hgone rfl hlooked

/-- What is gone may be one key that the linter has been told to forget. -/
theorem recalls_of_invalidate {path : String} (hw : s.workspace? = some w)
    (hgone : ∀ key, gone key → key = w.linter.resolve path)
    (hother : ∀ key, key ≠ w.linter.resolve path → l.cache.get? key = w.linter.cache.get? key)
    (hresolve : l.resolve path = w.linter.resolve path) (hw' : s'.workspace? = some w')
    (hlooked : Linter.Looked parser s'.files (l.invalidate path) w'.linter) :
    Recalls parser gone cut s s' := by
  intro key d hd
  cases hlooked.given key d ((exists_workspace_iff hw').1 hd) with
  | inr hload => exact .inl hload
  | inl hkept =>
    rw [Linter.cache_invalidate, hresolve] at hkept
    split at hkept
    · cases hkept
    · rename_i hkey
      rw [hother key hkey] at hkept
      exact .inr ⟨fun h => hkey (hgone key h), .inl ⟨w, hw, hkept⟩⟩

/-- It forgets what it has just looked at. -/
theorem recalls_of_forgotten {path : String} (hw : s.workspace? = some w)
    (hgone : ∀ key, gone key → key = w.linter.resolve path) (hw' : s'.workspace? = some w')
    (hlooked : Linter.Looked parser s'.files ((s.looking parser w path).linter.invalidate path)
      w'.linter) : Recalls parser gone cut s s' := by
  refine recalls_of_invalidate (l := (s.looking parser w path).linter) hw hgone
    (fun key hkey => ?_) (Linter.resolve_lintFile parser s.files w.linter path path) hw' hlooked
  rw [looking, Linter.cache_lintFile, if_neg hkey]

/-- It keeps what it has looked at before the file was cut off. -/
theorem recalls_broken {path : String} {location : Location} {fault : Fault} {new : Bytes}
    (hw : s.workspace? = some w) (hgone : ∀ key, ¬gone key) (hcut : cut (w.linter.resolve path)) :
    Recalls parser gone cut s (s.broken parser w path location fault new) := by
  intro key d hd
  have hcache : (s.looking parser w path).linter.cache.get? key = some d :=
    (exists_workspace_iff (s := s.broken parser w path location fault new) rfl).1 hd
  refine .inr ⟨hgone key, ?_⟩
  by_cases hkey : key = w.linter.resolve path
  · subst hkey
    cases (Linter.Looked.lintFile parser s.files w.linter path).given _ d hcache with
    | inl hkept => exact .inl ⟨w, hw, hkept⟩
    | inr hload => exact .inr ⟨hcut, hload⟩
  · rw [looking, Linter.cache_lintFile, if_neg hkey] at hcache
    exact .inl ⟨w, hw, hcache⟩

/-- What a command keeps: what was kept before it, if it does not forget that, or what the
file gives after it, or gave before it was cut off. -/
abbrev RecallsBy (parser : Parser) (c : Command) (s s' : Session) : Prop :=
  Recalls parser (s.Forgets parser · c) (s.CutsOff · c) s s'

end Recalls

section Step

variable (parser : Parser) (s : Session)

theorem recalls_loadWorkspace (root : String) :
    RecallsBy parser (.tool (.loadWorkspace root)) s
      (s.loadWorkspace root).1 := by
  rw [loadWorkspace]
  split
  · rintro key d ⟨w, hw, hd⟩
    obtain rfl := Option.some.inj hw
    cases hd
  · rename_i hroot
    exact recalls_refl (fun _ => hroot) s

theorem recalls_applyFix (path : String) (line : Int) :
    RecallsBy parser (.tool (.applyFix path line)) s
      (s.applyFix parser path line).1 := by
  cases hw : s.workspace? with
  | none =>
    rw [applyFix, hw]
    exact recalls_refl (fun _ => not_exists_workspace hw) s
  | some w =>
    rcases applyFix_cases parser path line hw with
      ⟨hnot, hleft⟩ | ⟨-, target, new, files, -, hleft⟩ | ⟨hnot, location, fault, new, hbreaks, hleft⟩
    · rw [hleft]
      exact recalls_of_linter hw (fun _ h => hnot ((exists_workspace_iff hw).1 h).2) rfl
        (.lintFile parser s.files w.linter path)
    · rw [hleft]
      exact recalls_of_forgotten hw (fun _ h => ((exists_workspace_iff hw).1 h).1) rfl
        (.refl parser files _)
    · rw [hleft]
      exact recalls_broken hw (fun _ h => hnot ((exists_workspace_iff hw).1 h).2)
        ⟨w, path, location, fault, hw, rfl, rfl, hbreaks⟩

theorem recalls_verifyFix (path : String) (line : Int) :
    RecallsBy parser (.tool (.verifyFix path line)) s
      (s.verifyFix parser path line).1 := by
  cases hw : s.workspace? with
  | none =>
    rw [verifyFix, hw]
    exact recalls_refl (fun _ => not_exists_workspace hw) s
  | some w =>
    obtain ⟨statuses, hleft⟩ := verifyFix_fst parser path line hw
    rw [hleft]
    exact recalls_of_invalidate (l := w.linter) hw (fun _ h => (exists_workspace_iff hw).1 h)
      (fun _ _ => rfl) rfl rfl (.lintFile parser s.files _ path)

theorem recalls_fixAll (path : String) (dryRun : Bool) :
    RecallsBy parser (.tool (.fixAll path dryRun)) s
      (s.fixAll parser path dryRun).1 := by
  cases hw : s.workspace? with
  | none =>
    rw [fixAll, hw]
    exact recalls_refl (fun _ => not_exists_workspace hw) s
  | some w =>
    rcases fixAll_cases parser path dryRun hw with
      ⟨hnot, hfiles, w', hw', hlooked⟩ | ⟨-, new, files, -, hleft⟩ |
        ⟨hnot, hreal, location, fault, new, hbreaks, hleft⟩
    · exact recalls_of_linter hw (fun _ h => hnot ((exists_workspace_iff hw).1 h).2) hw'
        (by rw [hfiles]; exact hlooked)
    · rw [hleft]
      exact recalls_of_forgotten hw (fun _ h => ((exists_workspace_iff hw).1 h).1) rfl
        (.lintFile parser files _ path)
    · rw [hleft]
      subst hreal
      exact recalls_broken hw (fun _ h => hnot ((exists_workspace_iff hw).1 h).2)
        ⟨w, path, location, fault, hw, rfl, rfl, hbreaks⟩

theorem recalls_call (t : Tool) :
    RecallsBy parser (.tool t) s (s.call parser t).1 := by
  cases t with
  | loadWorkspace root => exact recalls_loadWorkspace parser s root
  | listViolations path => exact recalls_of_looks (fun _ => id) (looks_listViolations parser s path)
  | lintWorkspace => exact recalls_of_looks (fun _ => id) (looks_lintWorkspace parser s)
  | explainRule ruleId => exact recalls_refl (fun _ => id) s
  | proposeFix path line =>
    exact recalls_of_looks (fun _ => id) (looks_proposeFix parser s path line)
  | applyFix path line => exact recalls_applyFix parser s path line
  | verifyFix path line => exact recalls_verifyFix parser s path line
  | fixAll path dryRun => exact recalls_fixAll parser s path dryRun
  | listEffects => exact recalls_refl (fun _ => id) s

theorem recalls_fixFile (path : String) (dryRun : Bool) :
    RecallsBy parser (.fixFile path dryRun) s
      (s.step parser (.fixFile path dryRun)).1 := by
  simp only [step, onWorkspace]
  cases hw : s.workspace? with
  | none => exact recalls_refl (fun _ => not_exists_workspace hw) s
  | some w =>
  have hnot (hkept : ∀ r files, (Fixer.fixing parser w.linter path dryRun).exec s.files =
      (.ok r, files) → r.1.written = false) (key : String) :
      ¬s.Forgets parser key (.fixFile path dryRun) := by
    intro h
    obtain ⟨-, rfl, hwrites⟩ := (exists_workspace_iff hw).1 h
    obtain ⟨r, files, hr, hwritten⟩ := hwrites.fixing rfl rfl
    cases (hkept r files hr).symm.trans hwritten
  have hattempt := Fixer.attempt_fixing parser s.files w.linter path dryRun
  dsimp only
  generalize (Fixer.fixing parser w.linter path dryRun).exec s.files = came at hattempt hnot ⊢
  cases hattempt with
  | failed e | brokenOff made breaks =>
    refine recalls_of_keeps (hnot nofun) ?_
    rintro key d ⟨w', hw', hd⟩
    obtain rfl := Option.some.inj hw'
    exact ⟨w, hw, hd⟩
  | @kept r kept =>
    obtain ⟨o, linter⟩ := r
    obtain ⟨hkept, rfl⟩ := kept
    refine recalls_of_linter hw (hnot ?_) rfl (.refl parser s.files _)
    intro r files hr
    cases hr
    exact hkept
  | @written r new files made write =>
    obtain ⟨o, linter⟩ := r
    obtain ⟨-, -, rfl, -⟩ := made
    exact recalls_of_invalidate (l := w.linter) hw
      (fun _ h => ((exists_workspace_iff hw).1 h).1) (fun _ _ => rfl) rfl rfl
      (.refl parser files _)

theorem recalls_invalidate (path : String) :
    RecallsBy parser (.invalidate path) s
      (s.step parser (.invalidate path)).1 := by
  simp only [step, onWorkspace]
  cases hw : s.workspace? with
  | none => exact recalls_refl (fun _ => not_exists_workspace hw) s
  | some w =>
    exact recalls_of_invalidate (l := w.linter) hw (fun _ h => (exists_workspace_iff hw).1 h)
      (fun _ _ => rfl) rfl rfl (.refl parser s.files _)

/-- Commands that do not touch the linter leave what it keeps. -/
theorem recalls_onWorkspace {gone cut : String → Prop} (hgone : ∀ key, ¬gone key)
    {f : Workspace → Session × Except Failure Response}
    (h : ∀ w, s.workspace? = some w → Recalls parser gone cut s (f w).1) :
    Recalls parser gone cut s (s.onWorkspace f).1 := by
  rw [onWorkspace]
  cases hw : s.workspace? with
  | none => exact recalls_refl hgone s
  | some w => exact h w hw

/-- What the linter keeps after a command, it has kept before, and not forgotten; or the
file gives it after the command, or gave it before and was cut off by it. -/
theorem recalls_step (c : Command) :
    RecallsBy parser c s (s.step parser c).1 := by
  cases c with
  | tool t => exact recalls_call parser s t
  | lintFile path =>
    exact recalls_onWorkspace parser s (fun _ => id) fun w hw =>
      recalls_of_linter hw (fun _ => id) rfl (.lintFile parser s.files w.linter path)
  | lintWorkspace =>
    exact recalls_onWorkspace parser s (fun _ => id) fun w hw =>
      recalls_of_linter hw (fun _ => id) rfl (Linter.looked_lintWorkspace parser s.files w.linter)
  | discover =>
    exact recalls_onWorkspace parser s (fun _ => id) fun w hw => recalls_refl (fun _ => id) s
  | invalidate path => exact recalls_invalidate parser s path
  | fixFile path dryRun => exact recalls_fixFile parser s path dryRun
  | applyToFile path edits dryRun =>
    exact recalls_onWorkspace parser s (fun _ => id) fun w hw =>
      recalls_of_keeps (fun _ => id) fun _ _ => id
  | setRule rule =>
    refine recalls_onWorkspace parser s (fun _ => id) fun w hw => ?_
    refine recalls_of_keeps (fun _ => id) ?_
    rintro key d ⟨w', hw', hd⟩
    obtain rfl := Option.some.inj hw'
    exact ⟨w, hw, hd⟩
  | statuses => exact recalls_refl (fun _ => id) s
  | change c =>
    rw [step]
    split
    · exact recalls_of_keeps (fun _ => id) fun _ _ => id
    · exact recalls_refl (fun _ => id) s

end Step

/-! ## Any run -/

/-- What the linter keeps after some commands, the file gave after the first so many of
them, and the others have not made the linter forget it. -/
theorem exists_moment_of_keeps {parser : Parser} {s : Session} (hs : ∀ key d, ¬s.Keeps key d)
    {key : String} {d : Document} (cs : List Command) (h : (s.after parser cs).Keeps key d) :
    ∃ before since, cs = before ++ since ∧
      Document.load? parser (s.after parser before).files key = some d ∧
      Spares parser key (s.after parser before) since := by
  induction cs using List.reverseRecOn with
  | nil => exact absurd h (hs key d)
  | append_singleton cs c ih =>
    rw [after_concat] at h
    cases recalls_step parser (s.after parser cs) c key d h with
    | inl hload => exact ⟨cs ++ [c], [], by simp, by rwa [after_concat], trivial⟩
    | inr hkept =>
      obtain ⟨hspared, hkept | ⟨-, hload⟩⟩ := hkept
      · obtain ⟨before, since, rfl, hload, hsince⟩ := ih hkept
        rw [after_append] at hspared
        exact ⟨before, since ++ [c], by simp, hload, hsince.concat hspared⟩
      · exact ⟨cs, [c], rfl, hload, hspared, trivial⟩

/-- **A linter keeps snapshots.** Let any commands be done, one after another, from a
session without a workspace. A document that the linter then keeps under a key is of a
known type, is the parse of its source and not binary, and its source was read from the
file of the key at some moment, since when no command has made the linter forget it. A
look at a path of that key reports what linting that source reports by the rule that the
linter now has, whatever is in the files by then. -/
theorem documents_are_snapshots (parser : Parser) (files : FileSystem) (cs : List Command)
    {w : Workspace} (hw : (after parser { files } cs).workspace? = some w) {key : String}
    {d : Document} (hd : w.linter.cache.get? key = some d) :
    ∃ language, Language.ofPath? key = some language ∧
      parser language d.source = .ok d.parsed ∧ 0 ∉ d.source.take 8192 ∧
      (∃ before since, cs = before ++ since ∧
        (after parser { files } before).files.read key = .ok d.source ∧
        Spares parser key (after parser { files } before) since) ∧
      ∀ path, w.linter.resolve path = key → ∃ vs,
        w.linter.rule.lint parser language d.source (Path.normalize path) = .ok vs ∧
        ∀ fs, w.linter.lintFile parser fs path = (vs, w.linter) := by
  obtain ⟨before, since, hcs, hload, hsince⟩ :=
    exists_moment_of_keeps (not_keeps files) cs ⟨w, hw, hd⟩
  obtain ⟨language, hlanguage, hread, hbinary, hparsed⟩ := Document.load?_eq_some_iff.1 hload
  have hzero : 0 ∉ d.source.take 8192 := by
    rw [Document.isBinary] at hbinary
    simpa using hbinary
  refine ⟨language, hlanguage, hparsed, hzero, ⟨before, since, hcs, hread, hsince⟩, ?_⟩
  rintro path rfl
  exact ⟨_, Fixer.lint_eq_ok_iff.2 ⟨d.parsed, hparsed, rfl⟩, fun fs => Linter.lintFile_of_kept hd⟩

end Session

namespace NestedSaga

open DeepSaga (files holds_files)

theorem lint_source {outer inner : Bool} (h : outer = true → inner = true) (path : String) :
    ({} : Rule).lint parser .javascript (source outer inner) path =
      .ok (({} : Rule).check (source outer inner) path (.ofTree (tree true outer inner))) :=
  Fixer.lint_eq_ok_iff.2 ⟨_, parser_source h .javascript, rfl⟩

/-- The saga as it is read. -/
def document (outer inner : Bool) : Document :=
  ⟨source outer inner, ⟨tree true outer inner, false⟩⟩

theorem isBinary_source : ∀ outer inner, Document.isBinary (source outer inner) = false := by
  decide +kernel

theorem load?_source {outer inner : Bool} (h : outer = true → inner = true) {fs : FileSystem}
    {key : String} (hkey : Language.ofPath? key = some .javascript)
    (hread : fs.read key = .ok (source outer inner)) :
    Document.load? parser fs key = some (document outer inner) := by
  rw [document, Document.load?_eq_some_iff]
  dsimp only
  exact ⟨.javascript, hkey, hread, isBinary_source outer inner, parser_source h .javascript⟩

theorem resolve_ws : Linter.resolve { root := "ws" } "a.js" = "ws/a.js" := by decide +kernel

theorem normalize_ws : Path.normalize "a.js" = "a.js" := by decide +kernel

theorem ofPath?_ws : Language.ofPath? "ws/a.js" = some .javascript := by decide +kernel

theorem step_loadWorkspace (content : Bytes) :
    (Session.step parser { files := files content } (.tool (.loadWorkspace "ws"))).1 =
      ⟨files content, some { linter := { root := "ws" } }⟩ := by
  rfl

theorem step_listViolations (content : Bytes) (path : String) :
    (Session.step parser ⟨files content, some { linter := { root := "ws" } }⟩
      (.tool (.listViolations path))).1 =
        ⟨files content, some {
          linter := (Linter.lintFile parser (files content) { root := "ws" } path).2 }⟩ := by
  have hcall : ∀ s : Session, (s.step parser (.tool (.listViolations path))).1 =
      (s.listViolations parser path).1 := fun _ => rfl
  rw [hcall, Session.listViolations_fst parser _ rfl]
  rfl

theorem step_write (content new : Bytes) (w : Workspace) :
    (Session.step parser ⟨files content, some w⟩ (.change (.write "ws/a.js" new))).1 =
      ⟨files new, some w⟩ := by
  rfl

/-- The saga is kept as it was when it was linted. -/
theorem kept_lintFile : (Linter.lintFile parser (files (source false true)) { root := "ws" }
    "a.js").2.cache.get? "ws/a.js" = some (document false true) := by
  rw [Linter.cache_lintFile, resolve_ws, if_pos rfl, Linter.found]
  exact load?_source (fun _ => rfl) ofPath?_ws (holds_files (source false true)).read

/-- The saga is listed, and then written from outside. -/
def listing (content : Bytes) : List Command :=
  [.tool (.loadWorkspace "ws"), .tool (.listViolations "a.js"), .change (.write "ws/a.js" content)]

/-- The linter keeps the saga as it was when it was listed. -/
theorem after_listing (content : Bytes) : ∃ w,
    Session.after parser { files := files (source false true) } (listing content) =
        ⟨files content, some w⟩ ∧
      w.linter.rule = {} ∧ w.linter.resolve "a.js" = "ws/a.js" ∧
      w.linter.cache.get? "ws/a.js" = some (document false true) := by
  rw [listing, Session.after_cons, Session.after_cons, Session.after_cons, step_loadWorkspace,
    step_listViolations, step_write]
  refine ⟨_, rfl, Linter.rule_lintFile .., ?_, kept_lintFile⟩
  rw [Linter.resolve_lintFile, resolve_ws]

end NestedSaga

open NestedSaga in
/-- The saga is listed, and its file then written from outside: a look finds what it found
before. -/
theorem documents_are_snapshots_of_nestedSaga :
    let s := Session.after parser { files := DeepSaga.files (source false true) }
      (listing (source true true))
    ∃ w, s.workspace? = some w ∧
      w.linter.cache.get? "ws/a.js" = some (document false true) ∧
      s.files.read "ws/a.js" = .ok (source true true) ∧
      ∃ vs, w.linter.rule.lint parser .javascript (source false true) "a.js" = .ok vs ∧
        vs.length = 1 ∧ w.linter.lintFile parser s.files "a.js" = (vs, w.linter) := by
  intro s
  obtain ⟨w, hs, hrule, hresolve, hkept⟩ := after_listing (source true true)
  have hloaded : s.workspace? = some w := congrArg Session.workspace? hs
  obtain ⟨language, hlanguage, -, -, -, hlint⟩ :=
    Session.documents_are_snapshots parser _ (listing (source true true)) hloaded hkept
  obtain rfl : .javascript = language := Option.some.inj (ofPath?_ws.symm.trans hlanguage)
  obtain ⟨vs, hvs, hlook⟩ := hlint "a.js" hresolve
  rw [normalize_ws, document] at hvs
  dsimp only at hvs
  refine ⟨w, hloaded, hkept, ?_, vs, hvs, ?_, hlook s.files⟩
  · rw [congrArg Session.files hs]
    exact (DeepSaga.holds_files (source true true)).read
  · rw [hrule] at hvs
    obtain rfl := Except.ok.inj (hvs.symm.trans (lint_source (fun _ => rfl) "a.js"))
    decide +kernel

end YieldLint
