/-
What a linter learns by looking at files.

A linter looks at a path by the document that it keeps under it or, if it keeps none, by
the one that the file gives (`found`). That decides what it reports (`lintFile_fst`), and
it is all that changes in the linter (`cache_lintFile`). Reading and parsing may fail, and a
look catches that, so it does not fail itself (`exec_linting`, `exec_lintingAll`). `Looked`
says of any number of looks what all of them have in common: what was kept is kept, and what
is new is what the files give. A file gives a document under conditions that are said once
(`load?_eq_some_iff`); they depend on nothing but what is read there (`load?_congr`).
-/
import YieldLint.Proofs.Overwriting
import YieldLint.Linter

namespace YieldLint

/-! ## The document that a file gives -/

namespace FileSystem

variable {fs : FileSystem} {path : String} {location : Location} {content : Bytes}

/-- Storing into a file is not seen by a path that leads elsewhere. -/
theorem read_store (hold : fs.content? location = some content) (new : Bytes)
    (h : fs.locate? path ≠ some location) : (fs.store location new).read path = fs.read path := by
  rw [read_eq, read_eq, locate?_store hold]
  cases hpath : fs.locate? path with
  | none => rfl
  | some other =>
    have hother : other ≠ location := fun he => h (by rw [hpath, he])
    simp only [content?_store hold, if_neg hother]
    rfl

theorem isFile_of_read (h : fs.read path = .ok content) : fs.isFile path = true := by
  obtain ⟨location, hleads, -, hcontent⟩ := read_eq_ok_iff.1 h
  rw [isFile, entry?, hleads, Option.bind_some, Entry.content?_eq_some_iff.1 hcontent]
  rfl

end FileSystem

namespace Document

variable {parser : Parser} {fs fs' : FileSystem} {path : String} {d : Document}

theorem loading_of_unknown (h : Language.ofPath? path = none) :
    loading parser fs path = .ok none := by
  rw [loading, h]
  rfl

theorem loading_of_unread {e : Failure} (h : fs.read path = .error e) :
    loading parser fs path = .ok none := by
  rw [loading, h]
  cases Language.ofPath? path with
  | none => rfl
  | some language => cases fs.isFile path <;> rfl

theorem loading_of_read {language : Language} {source : Bytes}
    (hknown : Language.ofPath? path = some language) (hread : fs.read path = .ok source) :
    loading parser fs path = .ok (if isBinary source then none
      else (parser.parse language source).toOption.map (Document.mk source)) := by
  simp only [loading, hknown, FileSystem.isFile_of_read hread, hread, Failure.caught_eq,
    Except.toOption, bind, Except.bind]
  cases isBinary source with
  | true => rfl
  | false => cases parser.parse language source <;> rfl

/-- Loading a file does not fail. -/
theorem loading_eq (parser : Parser) (fs : FileSystem) (path : String) :
    loading parser fs path = .ok (load? parser fs path) := by
  have h : ∃ d?, loading parser fs path = .ok d? := by
    cases hknown : Language.ofPath? path with
    | none => exact ⟨none, loading_of_unknown hknown⟩
    | some language =>
      cases hread : fs.read path with
      | error e => exact ⟨none, loading_of_unread hread⟩
      | ok source => exact ⟨_, loading_of_read hknown hread⟩
  obtain ⟨d?, h⟩ := h
  rw [load?, h]
  rfl

/-- A file gives a document if its type is known, it can be read and is not binary, and
the parser does not refuse it. -/
theorem load?_eq_some_iff : load? parser fs path = some d ↔
    ∃ language, Language.ofPath? path = some language ∧ fs.read path = .ok d.source ∧
      isBinary d.source = false ∧ parser language d.source = .ok d.parsed := by
  rw [load?]
  cases hknown : Language.ofPath? path with
  | none =>
    rw [loading_of_unknown hknown]
    exact iff_of_false nofun nofun
  | some language =>
  simp only [Option.some.injEq, exists_eq_left']
  cases hread : fs.read path with
  | error e =>
    rw [loading_of_unread hread]
    exact iff_of_false nofun nofun
  | ok source =>
  rw [loading_of_read hknown hread, Except.ok.injEq]
  constructor
  · intro h
    cases htext : isBinary source with
    | true => simp [Except.toOption, htext] at h
    | false =>
    cases hparse : parser.parse language source with
    | error e => simp [Except.toOption, htext, hparse] at h
    | ok parsed =>
      obtain rfl : ⟨source, parsed⟩ = d := by simpa [Except.toOption, htext, hparse] using h
      exact ⟨rfl, htext, Parser.parse_eq_ok_iff.1 hparse⟩
  · rintro ⟨rfl, htext, hparsed⟩
    simp [Except.toOption, htext, Parser.parse_eq_ok_iff.2 hparsed]

/-- Where the same is read, the same document is given. -/
theorem load?_congr (h : fs'.read path = fs.read path) :
    load? parser fs' path = load? parser fs path := by
  ext d
  rw [load?_eq_some_iff, load?_eq_some_iff, h]

end Document

/-! ## One look -/

namespace Linter

variable {parser : Parser} {fs : FileSystem} {l l' l'' : Linter} {path key : String}
  {d : Document}

/-- The document of a key: the one that is kept, or else the one that the file gives. -/
def found (parser : Parser) (fs : FileSystem) (l : Linter) (key : String) : Option Document :=
  match l.cache.get? key with
  | some d => some d
  | none => Document.load? parser fs key

theorem exec_opening_of_kept (hkept : l.cache.get? (l.resolve path) = some d) :
    (opening parser fs path).exec l = (.ok (some d), l) := by
  rw [opening, Program.exec_bind_of_ok (Program.exec_get l)]
  simp only [hkept]
  rfl

theorem exec_opening_of_none (hnone : l.cache.get? (l.resolve path) = none) :
    (opening parser fs path).exec l = (.ok (Document.load? parser fs (l.resolve path)),
      match Document.load? parser fs (l.resolve path) with
      | some d => { l with cache := l.cache.put (l.resolve path) d }
      | none => l) := by
  rw [opening, Program.exec_bind_of_ok (Program.exec_get l)]
  simp only [hnone]
  rw [Program.exec_bind, Program.exec_lift, Document.loading_eq]
  cases Document.load? parser fs (l.resolve path) with
  | some d => rfl
  | none => rfl

/-- To find the document of a path does not fail. -/
theorem exec_opening (parser : Parser) (fs : FileSystem) (path : String) (l : Linter) :
    (opening parser fs path).exec l =
      (.ok (l.document? parser fs path).1, (l.document? parser fs path).2) := by
  cases hkept : l.cache.get? (l.resolve path) with
  | some d => exact Program.exec_eq_answer (exec_opening_of_kept hkept) none
  | none => exact Program.exec_eq_answer (exec_opening_of_none hkept) none

theorem document?_of_kept (hkept : l.cache.get? (l.resolve path) = some d) :
    l.document? parser fs path = (some d, l) :=
  Program.answer_of_ok (exec_opening_of_kept hkept) none

theorem document?_of_none (hnone : l.cache.get? (l.resolve path) = none) :
    l.document? parser fs path = (Document.load? parser fs (l.resolve path),
      match Document.load? parser fs (l.resolve path) with
      | some d => { l with cache := l.cache.put (l.resolve path) d }
      | none => l) :=
  Program.answer_of_ok (exec_opening_of_none hnone) none

theorem document?_fst (parser : Parser) (fs : FileSystem) (l : Linter) (path : String) :
    (l.document? parser fs path).1 = l.found parser fs (l.resolve path) := by
  rw [found]
  cases hkept : l.cache.get? (l.resolve path) with
  | some d => rw [document?_of_kept hkept]
  | none => rw [document?_of_none hkept]

theorem document?_snd (parser : Parser) (fs : FileSystem) (l : Linter) (path : String) :
    ∃ cache, (l.document? parser fs path).2 = { l with cache } ∧ ∀ key,
      cache.get? key =
        if key = l.resolve path then l.found parser fs key else l.cache.get? key := by
  cases hkept : l.cache.get? (l.resolve path) with
  | some d =>
    rw [document?_of_kept hkept]
    refine ⟨l.cache, rfl, fun key => ?_⟩
    split
    · rename_i hkey
      rw [hkey, found, hkept]
    · rfl
  | none =>
    rw [document?_of_none hkept]
    cases hload : Document.load? parser fs (l.resolve path) with
    | some d =>
      refine ⟨_, rfl, fun key => ?_⟩
      rw [Table.get?_put]
      split
      · rename_i hkey
        rw [hkey, found, hkept, hload]
      · rfl
    | none =>
      refine ⟨l.cache, rfl, fun key => ?_⟩
      split
      · rename_i hkey
        rw [hkey, found, hkept, hload]
      · rfl

theorem exec_linting_eq (parser : Parser) (fs : FileSystem) (path : String) (l : Linter) :
    (linting parser fs path).exec l =
      (.ok (report l.rule path (l.found parser fs (l.resolve path))),
        (l.document? parser fs path).2) := by
  obtain ⟨cache, hsnd, -⟩ := document?_snd parser fs l path
  rw [linting, Program.exec_bind_of_ok (exec_opening parser fs path l), document?_fst,
    Program.exec_bind_of_ok (Program.exec_get _), hsnd, Program.exec_pure]

/-- A look at a file does not fail. -/
theorem exec_linting (parser : Parser) (fs : FileSystem) (path : String) (l : Linter) :
    (linting parser fs path).exec l =
      (.ok (l.lintFile parser fs path).1, (l.lintFile parser fs path).2) :=
  Program.exec_eq_answer (exec_linting_eq parser fs path l) []

theorem lintFile_eq (parser : Parser) (fs : FileSystem) (l : Linter) (path : String) :
    l.lintFile parser fs path =
      (report l.rule path (l.found parser fs (l.resolve path)),
        (l.document? parser fs path).2) :=
  Program.answer_of_ok (exec_linting_eq parser fs path l) []

/-- A look reports on the document that it finds. -/
theorem lintFile_fst (parser : Parser) (fs : FileSystem) (l : Linter) (path : String) :
    (l.lintFile parser fs path).1 = report l.rule path (l.found parser fs (l.resolve path)) := by
  rw [lintFile_eq]

theorem lintFile_of_kept (h : l.cache.get? (l.resolve path) = some d) :
    l.lintFile parser fs path = (l.rule.check d.source (Path.normalize path) d.parsed.root, l) := by
  rw [lintFile_eq, document?_of_kept h, found, h, report]

/-- A look keeps the document that it finds, and leaves all others alone. -/
theorem cache_lintFile (parser : Parser) (fs : FileSystem) (l : Linter) (path key : String) :
    (l.lintFile parser fs path).2.cache.get? key =
      if key = l.resolve path then l.found parser fs key else l.cache.get? key := by
  obtain ⟨cache, hsnd, hcache⟩ := document?_snd parser fs l path
  rw [lintFile_eq, hsnd, hcache]

/-- A look finds what was found before. -/
theorem found_lintFile (parser : Parser) (fs : FileSystem) (l : Linter) (path key : String) :
    (l.lintFile parser fs path).2.found parser fs key = l.found parser fs key := by
  rw [found, cache_lintFile]
  by_cases hkey : key = l.resolve path
  · rw [if_pos hkey]
    cases hfound : l.found parser fs key with
    | some d => rfl
    | none =>
      rw [found] at hfound
      split at hfound
      · cases hfound
      · exact hfound
  · rw [if_neg hkey, found]

@[simp] theorem root_lintFile (parser : Parser) (fs : FileSystem) (l : Linter) (path : String) :
    (l.lintFile parser fs path).2.root = l.root := by
  obtain ⟨cache, hsnd, -⟩ := document?_snd parser fs l path
  rw [lintFile_eq, hsnd]

@[simp] theorem rule_lintFile (parser : Parser) (fs : FileSystem) (l : Linter) (path : String) :
    (l.lintFile parser fs path).2.rule = l.rule := by
  obtain ⟨cache, hsnd, -⟩ := document?_snd parser fs l path
  rw [lintFile_eq, hsnd]

@[simp] theorem resolve_lintFile (parser : Parser) (fs : FileSystem) (l : Linter)
    (path other : String) : (l.lintFile parser fs path).2.resolve other = l.resolve other := by
  simp [resolve]

@[simp] theorem resolve_invalidate (l : Linter) (path other : String) :
    (l.invalidate path).resolve other = l.resolve other := rfl

@[simp] theorem rule_invalidate (l : Linter) (path : String) :
    (l.invalidate path).rule = l.rule := rfl

theorem cache_invalidate (l : Linter) (path key : String) :
    (l.invalidate path).cache.get? key =
      if key = l.resolve path then none else l.cache.get? key :=
  Table.get?_erase _ _ _

/-! ## Any number of looks -/

/-- The second linter is the first after some looks at the files. -/
structure Looked (parser : Parser) (fs : FileSystem) (l l' : Linter) : Prop where
  root : l'.root = l.root
  rule : l'.rule = l.rule
  kept : ∀ key d, l.cache.get? key = some d → l'.cache.get? key = some d
  given : ∀ key d, l'.cache.get? key = some d →
    l.cache.get? key = some d ∨ Document.load? parser fs key = some d

namespace Looked

theorem refl (parser : Parser) (fs : FileSystem) (l : Linter) : Looked parser fs l l :=
  ⟨rfl, rfl, fun _ _ h => h, fun _ _ h => .inl h⟩

theorem trans (h : Looked parser fs l l') (h' : Looked parser fs l' l'') :
    Looked parser fs l l'' where
  root := h'.root.trans h.root
  rule := h'.rule.trans h.rule
  kept key d hd := h'.kept key d (h.kept key d hd)
  given key d hd := by
    cases h'.given key d hd with
    | inl hd => exact h.given key d hd
    | inr hd => exact .inr hd

theorem lintFile (parser : Parser) (fs : FileSystem) (l : Linter) (path : String) :
    Looked parser fs l (l.lintFile parser fs path).2 where
  root := root_lintFile parser fs l path
  rule := rule_lintFile parser fs l path
  kept key d hd := by
    rw [cache_lintFile, found, hd, ite_self]
  given key d hd := by
    rw [cache_lintFile, found] at hd
    cases hkept : l.cache.get? key with
    | some d' =>
      rw [hkept, ite_self] at hd
      exact .inl hd
    | none =>
      rw [hkept] at hd
      split at hd
      · exact .inr hd
      · cases hd

end Looked

/-! ## A workspace -/

/-- The look at one file of a workspace, which is reported if it has violations. -/
def reportFile (parser : Parser) (fs : FileSystem)
    (seen : Table String (List Violation) × Linter) (path : String) :
    Table String (List Violation) × Linter :=
  match seen.2.lintFile parser fs path with
  | ([], l') => (seen.1, l')
  | (vs, l') => (seen.1.put path vs, l')

theorem exec_reporting (parser : Parser) (fs : FileSystem)
    (seen : Table String (List Violation)) (path : String) (l : Linter) :
    (reporting parser fs seen path).exec l =
      (.ok (reportFile parser fs (seen, l) path).1, (reportFile parser fs (seen, l) path).2) := by
  rw [reporting, Program.exec_bind_of_ok (exec_linting parser fs path l), reportFile]
  dsimp only
  rcases l.lintFile parser fs path with ⟨_ | ⟨v, vs⟩, l'⟩
  · rfl
  · rfl

theorem exec_foldlM_reporting (parser : Parser) (fs : FileSystem) (paths : List String) :
    ∀ (seen : Table String (List Violation)) (l : Linter),
      Program.exec (paths.foldlM (reporting parser fs) seen) l =
        (.ok (paths.foldl (reportFile parser fs) (seen, l)).1,
          (paths.foldl (reportFile parser fs) (seen, l)).2) := by
  induction paths with
  | nil => exact fun seen l => rfl
  | cons path paths ih =>
    intro seen l
    rw [List.foldlM_cons, Program.exec_bind_of_ok (exec_reporting parser fs seen path l), ih]
    rfl

theorem exec_lintingAll_eq (parser : Parser) (fs : FileSystem) (l : Linter) :
    (lintingAll parser fs).exec l =
      (.ok ((l.discover fs).foldl (reportFile parser fs) (.empty, l)).1,
        ((l.discover fs).foldl (reportFile parser fs) (.empty, l)).2) := by
  rw [lintingAll, Program.exec_bind_of_ok (Program.exec_get l)]
  exact exec_foldlM_reporting parser fs (l.discover fs) .empty l

/-- Linting a workspace does not fail. -/
theorem exec_lintingAll (parser : Parser) (fs : FileSystem) (l : Linter) :
    (lintingAll parser fs).exec l =
      (.ok (l.lintWorkspace parser fs).1, (l.lintWorkspace parser fs).2) :=
  Program.exec_eq_answer (exec_lintingAll_eq parser fs l) .empty

theorem lintWorkspace_eq (parser : Parser) (fs : FileSystem) (l : Linter) :
    l.lintWorkspace parser fs = (l.discover fs).foldl (reportFile parser fs) (.empty, l) :=
  Program.answer_of_ok (exec_lintingAll_eq parser fs l) .empty

theorem reportFile_snd (parser : Parser) (fs : FileSystem)
    (seen : Table String (List Violation) × Linter) (path : String) :
    (reportFile parser fs seen path).2 = (seen.2.lintFile parser fs path).2 := by
  rw [reportFile]
  rcases seen.2.lintFile parser fs path with ⟨vs, l'⟩
  cases vs <;> rfl

theorem looked_foldl_reportFile (parser : Parser) (fs : FileSystem) (paths : List String) :
    ∀ seen : Table String (List Violation) × Linter,
      Looked parser fs seen.2 (paths.foldl (reportFile parser fs) seen).2 := by
  induction paths with
  | nil => exact fun seen => .refl parser fs seen.2
  | cons path paths ih =>
    intro seen
    have hone := Looked.lintFile parser fs seen.2 path
    rw [← reportFile_snd] at hone
    exact hone.trans (ih _)

/-- Linting a workspace is looking at its files. -/
theorem looked_lintWorkspace (parser : Parser) (fs : FileSystem) (l : Linter) :
    Looked parser fs l (l.lintWorkspace parser fs).2 := by
  rw [lintWorkspace_eq]
  exact looked_foldl_reportFile parser fs _ (.empty, l)

end Linter

end YieldLint
