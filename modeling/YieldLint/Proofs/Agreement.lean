/-
What a call of a tool depends on.

A tool that is asked about a path depends on the file that the path leads to, on the document
that is kept under it, and on the statuses of the path. Where two sessions agree on these
(`FileSystem.AgreesOn`, `Workspace.AgreesOn`), it answers the same in both, writes the same
to the file or nothing, and leaves them in agreement (`callsAlike_call`), however much they
differ elsewhere. Of the programs that fix a file this is said step by step (`EndsAlike`):
they do the same until they write, and writing comes to the same, also if it breaks off.
-/
import YieldLint.Proofs.Frames

namespace YieldLint

/-! ## Files -/

namespace FileSystem

variable {path : String} {fs fs' fs₁ fs₁' : FileSystem} {location : Location} {old : Bytes}

/-- A path leads to the same in two file systems, which allow the same. -/
structure AgreesOn (path : String) (fs fs' : FileSystem) : Prop where
  leads : fs'.locate? path = fs.locate? path
  present : fs'.hasPath path = fs.hasPath path
  content : ∀ location, fs.locate? path = some location →
    fs'.content? location = fs.content? location
  unreadable : fs'.unreadable = fs.unreadable
  unwritable : fs'.unwritable = fs.unwritable
  faults : fs'.faults = fs.faults

/-- Nothing is written in two file systems, or the same to the file that a path leads to. -/
def WritesAlike (path : String) (fs fs₁ fs' fs₁' : FileSystem) : Prop :=
  fs₁ = fs ∧ fs₁' = fs' ∨ ∃ location old new, fs.locate? path = some location ∧
    fs.content? location = some old ∧ fs₁ = fs.store location new ∧ fs₁' = fs'.store location new

namespace AgreesOn

theorem refl (path : String) (fs : FileSystem) : AgreesOn path fs fs :=
  ⟨rfl, rfl, fun _ _ => rfl, rfl, rfl, rfl⟩

/-- Storing into one file is no matter to a path that leads to another. -/
theorem store (hold : fs.content? location = some old) (new : Bytes)
    (h : fs.locate? path ≠ some location) : AgreesOn path fs (fs.store location new) where
  leads := locate?_store hold new path
  present := hasPath_store hold new path
  content other hother := by
    have hne : other ≠ location := fun he => h (by rw [hother, he])
    rw [content?_store hold, if_neg hne]
  unreadable := rfl
  unwritable := rfl
  faults := rfl

theorem read (h : AgreesOn path fs fs') : fs'.read path = fs.read path := by
  rw [read_eq, read_eq, h.leads, h.unreadable]
  cases hleads : fs.locate? path with
  | none => rfl
  | some location => simp only [h.content location hleads]

theorem writable (h : AgreesOn path fs fs') : fs'.writable path = fs.writable path := by
  rw [writable_eq, writable_eq, h.leads, h.unwritable]
  cases hleads : fs.locate? path with
  | none => rfl
  | some location => simp only [h.content location hleads]

/-- After the same is written in both, two file systems agree as before. -/
theorem after_writes (h : AgreesOn path fs fs') (hwrites : WritesAlike path fs fs₁ fs' fs₁') :
    AgreesOn path fs₁ fs₁' := by
  rcases hwrites with ⟨rfl, rfl⟩ | ⟨location, old, new, hleads, hold, rfl, rfl⟩
  · exact h
  have hold' : fs'.content? location = some old := (h.content location hleads).trans hold
  constructor
  · rw [locate?_store hold, locate?_store hold', h.leads]
  · rw [hasPath_store hold, hasPath_store hold', h.present]
  · intro other hother
    rw [locate?_store hold] at hother
    rw [content?_store hold, content?_store hold', h.content other hother]
  · exact h.unreadable
  · exact h.unwritable
  · exact h.faults

end AgreesOn

/-- Two programs fail alike or come to related answers, and what they do with the files of
two file systems comes to the same. -/
inductive EndsAlike {α β : Type} (path : String) (fs fs' : FileSystem) (r : α → β → Prop) :
    Except Failure α × FileSystem → Except Failure β × FileSystem → Prop
  | error (e : Failure) {fs₁ fs₁' : FileSystem} (writes : WritesAlike path fs fs₁ fs' fs₁') :
      EndsAlike path fs fs' r (.error e, fs₁) (.error e, fs₁')
  | ok {a : α} {b : β} {fs₁ fs₁' : FileSystem} (related : r a b)
      (writes : WritesAlike path fs fs₁ fs' fs₁') :
      EndsAlike path fs fs' r (.ok a, fs₁) (.ok b, fs₁')

namespace EndsAlike

variable {α β γ : Type} {r : α → β → Prop} {p p' : FileProgram α} {q q' : FileProgram β}

/-- An answer is given before anything is written. -/
theorem pure {a : α} {b : β} (related : r a b) :
    EndsAlike path fs fs' r (Program.exec (Pure.pure a) fs) (Program.exec (Pure.pure b) fs') :=
  .ok related (.inl ⟨rfl, rfl⟩)

/-- What two programs do first comes to the same, and leaves the files alone. -/
theorem bind {p q : FileProgram γ} {x : Except Failure γ} {f : γ → FileProgram α}
    {g : γ → FileProgram β} (hp : p.exec fs = (x, fs)) (hq : q.exec fs' = (x, fs'))
    (hnext : ∀ a, EndsAlike path fs fs' r ((f a).exec fs) ((g a).exec fs')) :
    EndsAlike path fs fs' r (Program.exec (p >>= f) fs) (Program.exec (q >>= g) fs') := by
  rw [Program.exec_bind, Program.exec_bind, hp, hq]
  cases x with
  | error e => exact .error e (.inl ⟨rfl, rfl⟩)
  | ok a => exact hnext a

theorem ite {c : Prop} [Decidable c] (h : EndsAlike path fs fs' r (p.exec fs) (q.exec fs'))
    (h' : EndsAlike path fs fs' r (p'.exec fs) (q'.exec fs')) :
    EndsAlike path fs fs' r (Program.exec (if c then p else p') fs)
      (Program.exec (if c then q else q') fs') := by
  split
  · exact h
  · exact h'

/-- The same is written to the file that a path leads to, as far as that can be stored. -/
theorem write {a : α} {b : β} (h : AgreesOn path fs fs') (new : Bytes) (related : r a b) :
    EndsAlike path fs fs' r
      (Program.exec (FileProgram.write path new >>= fun _ => Pure.pure a) fs)
      (Program.exec (FileProgram.write path new >>= fun _ => Pure.pure b) fs') := by
  rw [Program.exec_bind, Program.exec_bind, exec_write, exec_write, h.writable]
  cases hopens : fs.writable path with
  | error e => exact .error e (.inl ⟨rfl, rfl⟩)
  | ok location =>
  obtain ⟨hleads, -, old, hold⟩ := writable_eq_ok_iff.1 hopens
  have hfault : fs'.fault? location = fs.fault? location := by rw [fault?, fault?, h.faults]
  dsimp only
  rw [hfault]
  cases fs.fault? location with
  | none => exact .ok related (.inr ⟨location, old, new, hleads, hold, rfl, rfl⟩)
  | some fault => exact .error _ (.inr ⟨location, old, _, hleads, hold, rfl, rfl⟩)

end EndsAlike

end FileSystem

/-! ## Linters and statuses -/

/-- Two linters differ at most in what they keep under other paths than this. -/
structure Linter.AgreesOn (path : String) (l l' : Linter) : Prop where
  root : l'.root = l.root
  rule : l'.rule = l.rule
  document : l'.cache.get? (l.resolve path) = l.cache.get? (l.resolve path)

namespace Linter.AgreesOn

variable {parser : Parser} {path : String} {l l' : Linter} {fs fs' : FileSystem}

theorem resolve (h : AgreesOn path l l') (other : String) : l'.resolve other = l.resolve other :=
  resolve_congr h.root other

theorem found (h : AgreesOn path l l') (hfiles : fs.AgreesOn (l.resolve path) fs') :
    l'.found parser fs' (l.resolve path) = l.found parser fs (l.resolve path) := by
  rw [Linter.found, Linter.found, h.document, Document.load?_congr hfiles.read]

theorem lintFile_fst (h : AgreesOn path l l') (hfiles : fs.AgreesOn (l.resolve path) fs') :
    (l'.lintFile parser fs' path).1 = (l.lintFile parser fs path).1 := by
  rw [Linter.lintFile_fst, Linter.lintFile_fst, h.rule, h.resolve, h.found hfiles]

theorem lintFile_snd (h : AgreesOn path l l') (hfiles : fs.AgreesOn (l.resolve path) fs') :
    AgreesOn path (l.lintFile parser fs path).2 (l'.lintFile parser fs' path).2 where
  root := by rw [root_lintFile, root_lintFile, h.root]
  rule := by rw [rule_lintFile, rule_lintFile, h.rule]
  document := by
    rw [cache_lintFile, cache_lintFile, resolve_lintFile, h.resolve, if_pos rfl, if_pos rfl,
      h.found hfiles]

theorem invalidate (h : AgreesOn path l l') : AgreesOn path (l.invalidate path) (l'.invalidate path)
    where
  root := h.root
  rule := h.rule
  document := by
    rw [cache_invalidate, cache_invalidate, resolve_invalidate, h.resolve, if_pos rfl, if_pos rfl]

end Linter.AgreesOn

/-- Two tables of statuses differ at most in those of other paths than this. -/
def Statuses.AgreesOn (path : String) (a b : Statuses) : Prop :=
  ∀ key : StatusKey, key.path = Path.normalize path → b.get? key = a.get? key

namespace Statuses.AgreesOn

variable {path : String} {a b : Statuses}

theorem mark (h : AgreesOn path a b) (vs : List Violation) (status : Violation → Status) :
    AgreesOn path (a.mark vs status) (b.mark vs status) := by
  intro key hkey
  rw [get?_mark, get?_mark, h key hkey]

theorem markLine (h : AgreesOn path a b) (other : String) (line : Int) (status : Status) :
    AgreesOn path (a.markLine other line status) (b.markLine other line status) := by
  intro key hkey
  rw [get?_markLine, get?_markLine, h key hkey]

end Statuses.AgreesOn

/-- Two workspaces differ at most in what is kept under other paths than this. -/
structure Workspace.AgreesOn (path : String) (w w' : Workspace) : Prop where
  linter : Linter.AgreesOn path w.linter w'.linter
  statuses : Statuses.AgreesOn path w.statuses w'.statuses

/-! ## The fixer -/

namespace Fixer

variable (parser : Parser) {path : String} {fs fs' : FileSystem}

theorem applying_alike (h : fs.AgreesOn path fs') (requests : List EditRequest)
    (dryRun : Bool) :
    fs.EndsAlike path fs' (fun o o' => o' = o)
      ((applying parser path requests dryRun).exec fs)
      ((applying parser path requests dryRun).exec fs') := by
  refine .bind (FileProgram.exec_read path fs)
    (by rw [FileProgram.exec_read, h.read]) fun content => ?_
  refine .bind (Program.exec_lift _ fs) (Program.exec_lift _ fs') fun edited => ?_
  refine .ite (.pure rfl) ?_
  refine .bind (Program.exec_lift _ fs) (Program.exec_lift _ fs') fun broken => ?_
  exact .ite (.pure rfl) (.ite (.pure rfl) (.write h edited.content rfl))

/-- Two attempts to fix a file tell the same, and leave linters that agree. -/
structure FixesAlike (path : String) (l : Linter) (r r' : FixOutcome × Linter) : Prop where
  outcome : r'.1 = r.1
  resolve : r.2.resolve path = l.resolve path
  linter : Linter.AgreesOn path r.2 r'.2

theorem fixing_alike {l l' : Linter} (hl : l.AgreesOn path l')
    (h : fs.AgreesOn (l.resolve path) fs') (dryRun : Bool) :
    fs.EndsAlike (l.resolve path) fs' (FixesAlike path l)
      ((fixing parser l path dryRun).exec fs) ((fixing parser l' path dryRun).exec fs') := by
  have hkept (o : FixOutcome) : FixesAlike path l (o, l) (o, l') := ⟨rfl, rfl, hl⟩
  unfold fixing
  simp only [hl.resolve, hl.rule]
  cases Language.ofPath? (l.resolve path) with
  | none => exact .pure (hkept _)
  | some language =>
  refine .bind (FileProgram.exec_hasPath _ fs)
    (by rw [FileProgram.exec_hasPath, h.present]) fun there => ?_
  refine .ite (.pure (hkept _)) ?_
  refine .bind (FileProgram.exec_read _ fs) (by rw [FileProgram.exec_read, h.read])
    fun original => ?_
  refine .bind (Program.exec_lift _ fs) (Program.exec_lift _ fs') fun fixed => ?_
  refine .ite (.pure (hkept _)) (.ite (.pure (hkept _)) ?_)
  exact .write h fixed.source ⟨rfl, rfl, hl.invalidate⟩

end Fixer

/-! ## Tools -/

namespace Session

/-- Two sessions with loaded workspaces agree on a path. -/
structure AgreesOn (path : String) (w w' : Workspace) (s s' : Session) : Prop where
  loaded : s.workspace? = some w
  loaded' : s'.workspace? = some w'
  files : s.files.AgreesOn (w.linter.resolve path) s'.files
  workspace : w.AgreesOn path w'

/-- Calls in two sessions answer the same, write the same to the file under a key or nothing,
and leave workspaces that agree on a path. -/
structure CallsAlike (path key : String) (s s' : Session) (r r' : Session × Except Failure String) :
    Prop where
  answer : r'.2 = r.2
  files : FileSystem.WritesAlike key s.files r.1.files s'.files r'.1.files
  workspaces : ∃ w w', r.1.workspace? = some w ∧ r'.1.workspace? = some w' ∧ w.AgreesOn path w'

theorem violationItem_congr {a b : Statuses} {v : Violation}
    (h : b.get? (.ofViolation v) = a.get? (.ofViolation v)) :
    violationItem b v = violationItem a v := by
  unfold violationItem
  rw [h]

theorem CallsAlike.ite {path key : String} {s s' : Session} {c : Prop} [Decidable c]
    {x x' y y' : Session × Except Failure String} (h : CallsAlike path key s s' x y)
    (h' : CallsAlike path key s s' x' y') :
    CallsAlike path key s s' (if c then x else x') (if c then y else y') := by
  split
  · exact h
  · exact h'

namespace AgreesOn

variable {parser : Parser} {path : String} {w w' : Workspace} {s s' : Session}

theorem reported (h : AgreesOn path w w' s s') :
    s'.reported parser w' path = s.reported parser w path :=
  h.workspace.linter.lintFile_fst h.files

variable (parser) in
theorem looking (h : AgreesOn path w w' s s') :
    (s.looking parser w path).AgreesOn path (s'.looking parser w' path) where
  linter := h.workspace.linter.lintFile_snd h.files
  statuses := h.workspace.statuses

/-- Looks at the file are alike, if no more comes of them than an answer, and what is
written. -/
theorem callsAlike_looking (h : AgreesOn path w w' s s') (answer : Except Failure String)
    {files files' : FileSystem}
    (hwrites : FileSystem.WritesAlike (w.linter.resolve path) s.files files s'.files files') :
    CallsAlike path (w.linter.resolve path) s s'
      (⟨files, some (s.looking parser w path)⟩, answer)
      (⟨files', some (s'.looking parser w' path)⟩, answer) where
  answer := rfl
  files := hwrites
  workspaces := ⟨_, _, rfl, rfl, h.looking parser⟩

theorem callsAlike_listViolations (h : AgreesOn path w w' s s') :
    CallsAlike path (w.linter.resolve path) s s' (s.call parser (.listViolations path))
      (s'.call parser (.listViolations path)) := by
  have hitems : (s.reported parser w path).map (violationItem w'.statuses) =
      (s.reported parser w path).map (violationItem w.statuses) := by
    refine List.map_congr_left fun v hv => violationItem_congr ?_
    exact h.workspace.statuses _ (StatusKey.path_ofViolation (filePath_of_reported hv))
  have hkept : ∀ (s : Session) w, (s.looking parser w path).statuses = w.statuses := fun _ _ => rfl
  simp only [call, listViolations, h.loaded, h.loaded', lintFile_eq, h.reported, hkept, hitems]
  exact h.callsAlike_looking _ (.inl ⟨rfl, rfl⟩)

theorem callsAlike_proposeFix (h : AgreesOn path w w' s s') (line : Int) :
    CallsAlike path (w.linter.resolve path) s s' (s.call parser (.proposeFix path line))
      (s'.call parser (.proposeFix path line)) := by
  simp only [call, proposeFix, h.loaded, h.loaded', lintFile_eq, h.reported]
  exact h.callsAlike_looking _ (.inl ⟨rfl, rfl⟩)

theorem callsAlike_applyFix (h : AgreesOn path w w' s s') (line : Int) :
    CallsAlike path (w.linter.resolve path) s s' (s.call parser (.applyFix path line))
      (s'.call parser (.applyFix path line)) := by
  have hresolve : (s.looking parser w path).linter.resolve path = w.linter.resolve path :=
    Linter.resolve_lintFile parser s.files w.linter path path
  have hresolve' : (s'.looking parser w' path).linter.resolve path = w.linter.resolve path :=
    (Linter.resolve_lintFile parser s'.files w'.linter path path).trans
      (h.workspace.linter.resolve path)
  simp only [call, applyFix, h.loaded, h.loaded', lintFile_eq, h.reported, hresolve, hresolve']
  cases Target.find? path line (s.reported parser w path) with
  | none => exact h.callsAlike_looking _ (.inl ⟨rfl, rfl⟩)
  | some target =>
  refine .ite (h.callsAlike_looking _ (.inl ⟨rfl, rfl⟩)) ?_
  have hends := Fixer.applying_alike parser h.files
    ((Fixer.editsOf target.violations).map .ofEdit) false
  generalize Program.exec _ s.files = x at hends ⊢
  generalize Program.exec _ s'.files = y at hends ⊢
  cases hends with
  | error e writes => exact h.callsAlike_looking _ writes
  | ok related writes =>
    subst related
    refine .ite (h.callsAlike_looking _ writes) ?_
    exact {
      answer := rfl
      files := writes
      workspaces := ⟨_, _, rfl, rfl, (h.looking parser).linter.invalidate,
        h.workspace.statuses.mark _ _⟩ }

theorem leftOn (h : AgreesOn path w w' s s') (line : Int) :
    s'.leftOn parser w' path line = s.leftOn parser w path line := by
  rw [Session.leftOn, Session.leftOn, h.workspace.linter.rule, h.workspace.linter.resolve,
    Document.load?_congr h.files.read]

theorem callsAlike_verifyFix (h : AgreesOn path w w' s s') (line : Int) :
    CallsAlike path (w.linter.resolve path) s s' (s.call parser (.verifyFix path line))
      (s'.call parser (.verifyFix path line)) := by
  rw [call, call, verifyFix_eq parser path line h.loaded, verifyFix_eq parser path line h.loaded',
    h.leftOn]
  refine ⟨rfl, .inl ⟨rfl, rfl⟩, _, _, rfl, rfl, ?_, ?_⟩
  · exact h.workspace.linter.invalidate.lintFile_snd h.files
  · dsimp only
    rw [checked, checked]
    split
    · exact h.workspace.statuses.markLine _ _ _
    · exact h.workspace.statuses.mark _ _

theorem callsAlike_fixAll (h : AgreesOn path w w' s s') (dryRun : Bool) :
    CallsAlike path (w.linter.resolve path) s s' (s.call parser (.fixAll path dryRun))
      (s'.call parser (.fixAll path dryRun)) := by
  have hresolve : (s.looking parser w path).linter.resolve path = w.linter.resolve path :=
    Linter.resolve_lintFile parser s.files w.linter path path
  simp only [call, fixAll, h.loaded, h.loaded', lintFile_eq, h.reported]
  refine .ite (h.callsAlike_looking _ (.inl ⟨rfl, rfl⟩)) ?_
  have hends := Fixer.fixing_alike parser (h.looking parser).linter
    (by rw [hresolve]; exact h.files) dryRun
  rw [hresolve] at hends
  generalize Program.exec _ s.files = x at hends ⊢
  generalize Program.exec _ s'.files = y at hends ⊢
  cases hends with
  | error e writes => exact h.callsAlike_looking _ writes
  | @ok a b files files' related writes =>
    obtain ⟨o, linter⟩ := a
    obtain ⟨o', linter'⟩ := b
    obtain ⟨rfl, hlinter, hagree⟩ := related
    rw [hresolve] at hlinter
    refine .ite (h.callsAlike_looking _ writes) ?_
    -- the second look meets what the fixer has just written, which is the same in both
    have hfiles : files.AgreesOn (linter.resolve path) files' := by
      rw [hlinter]
      exact h.files.after_writes writes
    have hleft : (linter'.lintFile parser files' path).1 = (linter.lintFile parser files path).1 :=
      hagree.lintFile_fst hfiles
    simp only [Session.reported, Session.looking, hleft]
    exact {
      answer := rfl
      files := writes
      workspaces := ⟨_, _, rfl, rfl, hagree.lintFile_snd hfiles, h.workspace.statuses.mark _ _⟩ }

variable (parser) in
/-- A call of a tool that is asked about a path depends on nothing but what sessions agree
on, and leaves them in agreement. -/
theorem callsAlike_call {t : Tool} (ht : t.path? = some path) (h : AgreesOn path w w' s s') :
    CallsAlike path (w.linter.resolve path) s s' (s.call parser t) (s'.call parser t) := by
  cases t with
  | listViolations path =>
    obtain rfl := Option.some.inj ht
    exact h.callsAlike_listViolations
  | proposeFix path line =>
    obtain rfl := Option.some.inj ht
    exact h.callsAlike_proposeFix line
  | applyFix path line =>
    obtain rfl := Option.some.inj ht
    exact h.callsAlike_applyFix line
  | verifyFix path line =>
    obtain rfl := Option.some.inj ht
    exact h.callsAlike_verifyFix line
  | fixAll path dryRun =>
    obtain rfl := Option.some.inj ht
    exact h.callsAlike_fixAll dryRun
  | _ => cases ht

end AgreesOn

end Session

end YieldLint
