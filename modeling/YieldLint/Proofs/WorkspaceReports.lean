/-
The files that linting a workspace looks at.

The search answers paths with slashes only, and linting follows them from the workspace
again. A path leads to names that stand in it, below a directory that is on the way to
where it began (`exists_of_follow`). So the path that is reported for a file leads back to
it just when no name on the way there holds a backslash (`locate?_resolve_report_iff`).
What a look reports does not depend on the looks before it (`Looked.lintFile_fst_eq`), so
the report on a workspace has of each path what linting it alone reports
(`get?_lintWorkspace`). Together: no file is missed but those with a backslash in their path
(`misses_no_plain_source`), and those may be (`missed_of_smallWorkspace`).
-/
import YieldLint.Proofs.Discovery
import YieldLint.Proofs.Verdicts

namespace YieldLint

theorem Entry.get?_append (e : Entry) (here there : Location) :
    e.get? (here ++ there) = (e.get? here).bind (·.get? there) := by
  induction here generalizing e with
  | nil => rfl
  | cons name here ih =>
    rw [List.cons_append, get?, get?, Option.bind_assoc]
    exact congrArg _ (funext ih)

namespace Path

/-- A name that a file or a directory can have. -/
def IsName (name : String) : Prop :=
  name ≠ "" ∧ name ≠ "." ∧ name ≠ ".." ∧ '/' ∉ name.toList

instance : DecidablePred IsName := fun _ => inferInstanceAs (Decidable (_ ∧ _))

/-- A relative path is put behind the directory that it is seen from. -/
theorem exists_join_eq (directory : String) {path : String} (h : isAbsolute path = false) :
    ∃ rest, join directory path = directory ++ rest := by
  rw [join, h, if_neg Bool.false_ne_true]
  split
  · exact ⟨path, rfl⟩
  · exact ⟨"/" ++ path, String.append_assoc ..⟩

end Path

/-! ## Following a path -/

namespace FileSystem

open YieldLint.Path

theorem follow_append (root : Entry) (here : Location) (as bs : List String) :
    follow root here (as ++ bs) = (follow root here as).bind (follow root · bs) := by
  induction as generalizing here with
  | nil => rfl
  | cons name as ih =>
    rw [List.cons_append, follow_cons, follow_cons]
    cases root.names? here with
    | none => rfl
    | some names =>
      dsimp only
      split
      · exact ih here
      split
      · exact ih here.dropLast
      split
      · exact ih (here ++ [name])
      · rfl

/-- The names on the way to something lead to it. -/
theorem follow_names {root e : Entry} {here location : Location}
    (hlegal : ∀ name ∈ location, IsName name) (h : root.get? (here ++ location) = some e) :
    follow root here location = some (here ++ location) := by
  induction location generalizing here with
  | nil => rw [follow, List.append_nil]
  | cons name rest ih =>
    obtain ⟨⟨hempty, hdot, hdots, -⟩, hrest⟩ := List.forall_mem_cons.1 hlegal
    have hnext : here ++ name :: rest = here ++ [name] ++ rest := by simp
    rw [Entry.get?_append] at h
    obtain ⟨parent, hparent, hbelow⟩ := Option.bind_eq_some_iff.1 h
    obtain ⟨child, hchild, -⟩ := Option.bind_eq_some_iff.1 hbelow
    cases parent with
    | file content => cases hchild
    | dir es =>
      have hlookup : (es.lookup name).isSome = true := Option.isSome_of_eq_some hchild
      rw [follow, hparent]
      dsimp only
      rw [if_neg (not_or.2 ⟨hempty, hdot⟩), if_neg hdots, if_pos hlookup, hnext]
      refine ih hrest ?_
      rw [← hnext, Entry.get?_append, hparent, Option.bind_some, hbelow]

/-- A path leads from a directory on the way to where it begins down through some of its
own names. -/
theorem exists_of_follow {root : Entry} {here there : Location} {names : List String}
    (h : follow root here names = some there) :
    ∃ front back, there = front ++ back ∧ front <+: here ∧ ∀ name ∈ back, name ∈ names := by
  induction names generalizing here with
  | nil => exact ⟨here, [], by simpa [follow] using h.symm, List.prefix_rfl, nofun⟩
  | cons name rest ih =>
    rw [follow_cons] at h
    split at h
    case h_2 => cases h
    split at h
    · obtain ⟨front, back, hthere, hfront, hback⟩ := ih h
      exact ⟨front, back, hthere, hfront, fun n hn => List.mem_cons_of_mem _ (hback n hn)⟩
    split at h
    · obtain ⟨front, back, hthere, hfront, hback⟩ := ih h
      exact ⟨front, back, hthere, hfront.trans (List.dropLast_prefix here),
        fun n hn => List.mem_cons_of_mem _ (hback n hn)⟩
    split at h
    case isFalse => cases h
    obtain ⟨front, back, hthere, hfront, hback⟩ := ih h
    rcases List.prefix_concat_iff.1 hfront with rfl | hfront
    · refine ⟨here, name :: back, by simpa using hthere, List.prefix_rfl, ?_⟩
      exact List.forall_mem_cons.2
        ⟨List.mem_cons_self, fun n hn => List.mem_cons_of_mem _ (hback n hn)⟩
    · exact ⟨front, back, hthere, hfront, fun n hn => List.mem_cons_of_mem _ (hback n hn)⟩

/-- A path that is seen from a directory is followed from where that leads. -/
theorem locate?_join {fs : FileSystem} {directory path : String} {here : Location}
    (hhere : fs.locate? directory = some here) (hpath : isAbsolute path = false) :
    fs.locate? (join directory path) = follow fs.root here (components path) := by
  rw [locate?] at hhere
  split at hhere
  case isTrue => cases hhere
  rename_i hne
  obtain ⟨rest, hrest⟩ := exists_join_eq directory hpath
  obtain ⟨front, hfront, hcomponents⟩ := components_join hne hpath
  have hjoin : join directory path ≠ "" := by
    rw [hrest]
    simp [hne]
  have hbase : fs.base (join directory path) = fs.base directory := by
    rw [base, base, hrest, isAbsolute_append hne]
  have hdirectory : follow fs.root (fs.base directory) front = some here := by
    rcases hfront with hfront | hfront
    · rwa [hfront] at hhere
    · rw [hfront, follow_append] at hhere
      obtain ⟨there, hthere, hlast⟩ := Option.bind_eq_some_iff.1 hhere
      rw [follow_cons] at hlast
      split at hlast
      · rw [if_pos (.inl rfl), follow] at hlast
        rwa [← hlast]
      · cases hlast
  rw [locate?, if_neg hjoin, hbase, hcomponents, follow_append, hdirectory, Option.bind_some]

end FileSystem

/-! ## The path to a file, and back -/

namespace Location

open YieldLint.Path

/-- No name on the way holds a backslash. -/
def Plain (location : Location) : Prop := ∀ name ∈ location, '\\' ∉ name.toList

instance : DecidablePred Plain := fun location =>
  inferInstanceAs (Decidable (∀ name ∈ location, _))

variable {location : Location}

theorem report_of_plain (h : location.Plain) : location.report = Text.joinWith "/" location := by
  refine normalize_of_not_mem fun hmem => ?_
  rcases mem_joinWith hmem with hslash | ⟨name, hname, hback⟩
  · exact absurd hslash (by decide)
  · exact h name hname hback

theorem components_report (h : location.Plain) (hne : location ≠ [])
    (hlegal : ∀ name ∈ location, IsName name) : components location.report = location := by
  rw [report_of_plain h, components_joinWith hne fun name hname => (hlegal name hname).2.2.2]

/-- Different files are reported under different paths. -/
theorem report_inj {a b : Location} (ha : a.Plain) (hb : b.Plain) (ha' : a ≠ []) (hb' : b ≠ [])
    (hlegal : ∀ name ∈ a ++ b, IsName name) (h : a.report = b.report) : a = b := by
  rw [← components_report ha ha' fun name hname => hlegal name (List.mem_append_left b hname), h,
    components_report hb hb' fun name hname => hlegal name (List.mem_append_right a hname)]

theorem isAbsolute_report (h : location.Plain) (hlegal : ∀ name ∈ location, IsName name) :
    isAbsolute location.report = false := by
  have hname : ∀ name ∈ location, isAbsolute name = false := by
    intro name hmem
    rw [isAbsolute, beq_eq_false_iff_ne]
    exact fun hhead => (hlegal name hmem).2.2.2 (List.mem_of_head? hhead)
  rw [report_of_plain h]
  cases location with
  | nil => rfl
  | cons name rest =>
    have hfirst := hname name List.mem_cons_self
    cases rest with
    | nil => exact hfirst
    | cons next rest =>
      rw [Text.joinWith, String.append_assoc, isAbsolute_append (hlegal name List.mem_cons_self).1]
      · exact hfirst
      · exact List.cons_ne_nil next rest

theorem normalize_report (location : Location) : normalize location.report = location.report :=
  normalize_normalize _

end Location

namespace Linter

variable {parser : Parser} {fs : FileSystem} {l l' : Linter} {here location : Location} {e : Entry}

theorem resolve_report (l : Linter) (location : Location) :
    l.resolve location.report = Path.join l.root location.report := by
  rw [resolve, Location.normalize_report]

/-- The path that is reported for a file leads back to it just when no name on the way holds
a backslash. -/
theorem locate?_resolve_report_iff (hroot : fs.locate? l.root = some here) (hne : location ≠ [])
    (hlegal : ∀ name ∈ location, Path.IsName name)
    (hthere : fs.root.get? (here ++ location) = some e) :
    fs.locate? (l.resolve location.report) = some (here ++ location) ↔ location.Plain := by
  rw [resolve_report]
  constructor
  · intro hback
    -- The names of the file are in its path, where no backslash is.
    have hway : ∃ front back, here ++ location = front ++ back ∧ front <+: here ∧
        ∀ name ∈ back, name ∈ Path.components location.report := by
      cases habsolute : Path.isAbsolute location.report with
      | false =>
        rw [FileSystem.locate?_join hroot habsolute] at hback
        exact FileSystem.exists_of_follow hback
      | true =>
        rw [Path.join, if_pos habsolute, FileSystem.locate?] at hback
        split at hback
        · cases hback
        · rw [FileSystem.base, if_pos habsolute] at hback
          obtain ⟨front, back, hsplit, hfront, hnames⟩ := FileSystem.exists_of_follow hback
          exact ⟨front, back, hsplit, hfront.trans List.nil_prefix, hnames⟩
    obtain ⟨front, back, hsplit, ⟨between, rfl⟩, hnames⟩ := hway
    rw [List.append_assoc] at hsplit
    intro name hname
    refine Path.not_mem_of_mem_components (Path.not_mem_normalize _) (hnames name ?_)
    rw [← List.append_cancel_left hsplit]
    exact List.mem_append_right between hname
  · intro hplain
    rw [FileSystem.locate?_join hroot (Location.isAbsolute_report hplain hlegal),
      Location.components_report hplain hne hlegal]
    exact FileSystem.follow_names hlegal hthere

/-! ## The report on a workspace -/

namespace Looked

theorem found_eq (h : Looked parser fs l l') (key : String) :
    l'.found parser fs key = l.found parser fs key := by
  rw [found, found]
  cases hkept : l.cache.get? key with
  | some d => rw [h.kept key d hkept]
  | none =>
    cases hnew : l'.cache.get? key with
    | none => rfl
    | some d =>
      rcases h.given key d hnew with hold | hload
      · cases hkept.symm.trans hold
      · exact hload.symm

/-- A look reports what it would have reported before other looks. -/
theorem lintFile_fst_eq (h : Looked parser fs l l') (path : String) :
    (l'.lintFile parser fs path).1 = (l.lintFile parser fs path).1 := by
  rw [lintFile_fst, lintFile_fst, h.found_eq, resolve, resolve, h.root, h.rule]

end Looked

theorem get?_reportFile (parser : Parser) (fs : FileSystem)
    (seen : Table String (List Violation) × Linter) (path other : String) :
    (reportFile parser fs seen path).1.get? other =
      if other = path ∧ (seen.2.lintFile parser fs other).1 ≠ [] then
        some (seen.2.lintFile parser fs other).1
      else seen.1.get? other := by
  by_cases hother : other = path
  · subst hother
    rw [reportFile]
    rcases seen.2.lintFile parser fs other with ⟨vs, l'⟩
    cases vs with
    | nil => simp
    | cons v vs => simp
  · rw [if_neg fun h => hother h.1, reportFile]
    rcases seen.2.lintFile parser fs path with ⟨vs, l'⟩
    cases vs with
    | nil => rfl
    | cons v vs => exact Table.get?_put_other _ _ hother

theorem get?_foldl_reportFile (paths : List String) (path : String) :
    ∀ seen : Table String (List Violation) × Linter, Looked parser fs l seen.2 →
      (paths.foldl (reportFile parser fs) seen).1.get? path =
        if path ∈ paths ∧ (l.lintFile parser fs path).1 ≠ [] then
          some (l.lintFile parser fs path).1
        else seen.1.get? path := by
  induction paths with
  | nil => exact fun seen _ => by simp
  | cons first paths ih =>
    intro seen hseen
    have hnext : Looked parser fs l (reportFile parser fs seen first).2 := by
      rw [reportFile_snd]
      exact hseen.trans (Looked.lintFile parser fs seen.2 first)
    rw [List.foldl_cons, ih _ hnext, get?_reportFile, hseen.lintFile_fst_eq]
    by_cases hclean : (l.lintFile parser fs path).1 = []
    · simp [hclean]
    · by_cases hrest : path ∈ paths
      · simp [hrest, hclean]
      · simp [hrest, hclean]

/-- The report on a workspace has of each path that was found what linting it alone reports,
if that is anything, and nothing else. -/
theorem get?_lintWorkspace (parser : Parser) (fs : FileSystem) (l : Linter) (path : String) :
    (l.lintWorkspace parser fs).1.get? path =
      if path ∈ l.discover fs ∧ (l.lintFile parser fs path).1 ≠ [] then
        some (l.lintFile parser fs path).1
      else none := by
  rw [lintWorkspace_eq, get?_foldl_reportFile (l.discover fs) path _ (.refl parser fs l)]
  rfl

/-! ## No file is missed -/

/-- The path that is reported for a source file has a known language where it is opened. -/
theorem isSome_ofPath?_resolve_report (hsource : e.IsSourceAt location) (hplain : location.Plain)
    (hlegal : ∀ name ∈ location, Path.IsName name) :
    (Language.ofPath? (l.resolve location.report)).isSome = true := by
  obtain ⟨dirs, name, content, hlocation, -, hname, -⟩ := hsource
  have hslash : ∀ n ∈ dirs ++ [name], '/' ∉ n.toList := fun n hn =>
    (hlegal n (hlocation ▸ hn)).2.2.2
  rw [resolve_report, Language.ofPath?_join, Location.report_of_plain hplain, hlocation,
    Language.ofPath?_joinWith hslash]
  exact Language.isSome_ofPath?_iff.2 hname

/-- **Linting a workspace misses no plain file.** Let the root of a workspace lead to a
directory with distinct names in each directory of it, and legal names on the way to each
source file. Then every source file has its path among those that are found, and that path
leads back to the file just when no name on the way holds a backslash. Of two such files the
paths are different. Where the path leads back, it has a known language; and if a linter that
keeps nothing lints the workspace, and the file may be read, is not binary and is linted by
the rule for its path without a refusal, then the report has under that path exactly the
violations in the file, or no entry if there are none. -/
theorem misses_no_plain_source (hroot : fs.locate? l.root = some here)
    (hentry : fs.root.get? here = some e) (hnames : e.DistinctNames)
    (hlegal : ∀ location, e.IsSourceAt location → ∀ name ∈ location, Path.IsName name)
    (hempty : l.cache = .empty) :
    (∀ a b, e.IsSourceAt a → e.IsSourceAt b → a.Plain → b.Plain → a.report = b.report → a = b) ∧
      ∀ location, e.IsSourceAt location →
        location.report ∈ l.discover fs ∧
        (fs.locate? (l.resolve location.report) = some (here ++ location) ↔ location.Plain) ∧
        (location.Plain → ∃ language,
          Language.ofPath? (l.resolve location.report) = some language ∧
          ∀ content vs, e.get? location = some (.file content) →
            here ++ location ∉ fs.unreadable → Document.isBinary content = false →
            l.rule.lint parser language content location.report = .ok vs →
            (l.lintWorkspace parser fs).1.get? location.report =
              if vs = [] then none else some vs) := by
  have hne : ∀ location, e.IsSourceAt location → location ≠ [] := by
    rintro location hsource rfl
    exact e.not_isSourceAt_nil hsource
  have hthere : ∀ location child, e.get? location = some child →
      fs.root.get? (here ++ location) = some child := by
    intro location child hchild
    rw [Entry.get?_append, hentry, Option.bind_some, hchild]
  refine ⟨fun a b ha hb haplain hbplain => ?_, fun location hsource => ?_⟩
  · exact Location.report_inj haplain hbplain (hne a ha) (hne b hb)
      (List.forall_mem_append.2 ⟨hlegal a ha, hlegal b hb⟩)
  obtain ⟨_, _, _, -, hfile, -, -⟩ := id hsource
  have hleads := locate?_resolve_report_iff hroot (hne location hsource)
    (hlegal location hsource) (hthere location _ hfile)
  have hfound : location.report ∈ l.discover fs := by
    refine report_mem_discover ?_ hnames hsource
    rw [FileSystem.entry?, hroot, Option.bind_some, hentry]
  refine ⟨hfound, hleads, fun hplain => ?_⟩
  obtain ⟨language, hknown⟩ := Option.isSome_iff_exists.1
    (isSome_ofPath?_resolve_report (l := l) hsource hplain (hlegal location hsource))
  refine ⟨language, hknown, fun content vs hcontent hreadable htext hlint => ?_⟩
  have hread : fs.read (l.resolve location.report) = .ok content :=
    FileSystem.read_eq_ok_iff.2 ⟨here ++ location, hleads.2 hplain, hreadable,
      Entry.content?_eq_some_iff.2 (hthere location _ hcontent)⟩
  rw [← Location.normalize_report] at hlint
  rw [get?_lintWorkspace, lintFile_fst_of_empty hempty hknown hread hlint, htext]
  simp [hfound]

end Linter

/-! ## A file that is missed -/

namespace SmallWorkspace

theorem sources_entry (content : Bytes) :
    (entry content).sources = [["saga", "a.js"], ["saga", "c\\d.jsx"], ["b.TS"]] := by
  have hsources : ∀ name ∈ ["a.js", "c\\d.jsx", "b.TS"],
      (Language.ofPath? name).isSome = true := by decide +kernel
  have hothers : ∀ name ∈ [".js", "readme.md"], (Language.ofPath? name).isSome = false := by
    decide +kernel
  simp only [List.forall_mem_cons] at hsources hothers
  simp [entry, saga, Entry.sources, Entry.sourcesIn, Entry.sourcesAt, Entry.skippedDirs, hsources,
    hothers]

theorem isSourceAt_iff (content : Bytes) {location : Location} :
    (entry content).IsSourceAt location ↔
      location ∈ [["saga", "a.js"], ["saga", "c\\d.jsx"], ["b.TS"]] := by
  rw [← (entry content).mem_sources_iff (distinctNames_entry content), sources_entry]

theorem isName_of_isSourceAt (content : Bytes) (location : Location)
    (h : (entry content).IsSourceAt location) : ∀ name ∈ location, Path.IsName name := by
  have hall : ∀ location ∈ [["saga", "a.js"], ["saga", "c\\d.jsx"], ["b.TS"]],
      ∀ name ∈ location, Path.IsName name := by decide +kernel
  exact hall location ((isSourceAt_iff content).1 h)

/-- A linter of the workspace that keeps nothing. -/
def linter : Linter := { root := "dist" }

theorem locate?_root (content : Bytes) :
    (files content).locate? linter.root = some ["dist"] := by
  rfl

end SmallWorkspace

open SmallWorkspace in
open NestedSaga (source parser lint_source isBinary_source) in
/-- A file with a backslash in its name is found, but its path leads nowhere, and the report
on the workspace does not have the violations in it. -/
theorem missed_of_smallWorkspace :
    let content := source false true
    let location : Location := ["saga", "c\\d.jsx"]
    (files content).locate? linter.root = some ["dist"] ∧
      (files content).root.get? ["dist"] = some (entry content) ∧
      (entry content).DistinctNames ∧
      (∀ location, (entry content).IsSourceAt location → ∀ name ∈ location, Path.IsName name) ∧
      linter.cache = .empty ∧ (files content).unreadable = [] ∧
      (entry content).IsSourceAt location ∧
      (entry content).get? location = some (.file content) ∧
      Document.isBinary content = false ∧
      (files content).locate? (linter.resolve location.report) ≠ some (["dist"] ++ location) ∧
      ∃ vs, linter.rule.lint parser .javascript content location.report = .ok vs ∧ vs ≠ [] ∧
        (linter.lintWorkspace parser (files content)).1.get? location.report = none := by
  intro content location
  have hnowhere : (files content).locate? (linter.resolve location.report) = none := by
    decide +kernel
  have hread : (files content).read (linter.resolve location.report) =
      .error (.fileNotFound (linter.resolve location.report)) := by
    rw [FileSystem.read_eq, hnowhere]
  have hlook : (linter.lintFile parser (files content) location.report).1 = [] := by
    rw [Linter.lintFile_fst, Linter.found, linter, Table.get?_empty, ← linter,
      Document.load?_eq_none_iff.2 (.unread hread)]
    rfl
  refine ⟨locate?_root content, rfl, distinctNames_entry content, isName_of_isSourceAt content,
    rfl, rfl, (isSourceAt_iff content).2 (by simp [location]), rfl, isBinary_source false true, ?_,
    _, lint_source (fun _ => rfl) _, by decide +kernel, ?_⟩
  · rw [hnowhere]
    exact (Option.some_ne_none _).symm
  · rw [Linter.get?_lintWorkspace, hlook]
    simp

open SmallWorkspace in
open NestedSaga (source parser lint_source isBinary_source) in
/-- The file beside it is in the report, with its violation. -/
theorem misses_no_plain_source_of_smallWorkspace :
    let content := source false true
    let location : Location := ["saga", "a.js"]
    (∀ location, (entry content).IsSourceAt location → ∀ name ∈ location, Path.IsName name) ∧
      (entry content).IsSourceAt location ∧ location.report = "saga/a.js" ∧
      ∃ vs, linter.rule.lint parser .javascript content location.report = .ok vs ∧
        vs.length = 1 ∧
        (linter.lintWorkspace parser (files content)).1.get? location.report = some vs := by
  intro content location
  have hsource : (entry content).IsSourceAt location :=
    (isSourceAt_iff content).2 (by simp [location])
  obtain ⟨-, hall⟩ := Linter.misses_no_plain_source (locate?_root content) rfl
    (distinctNames_entry content) (isName_of_isSourceAt content) rfl
  obtain ⟨-, -, hplain⟩ := hall location hsource
  obtain ⟨language, hlanguage, hreport⟩ := hplain (by decide +kernel)
  have hknown : Language.ofPath? (linter.resolve location.report) = some .javascript := by
    decide +kernel
  obtain rfl : language = .javascript := Option.some.inj (hlanguage.symm.trans hknown)
  have hlint : linter.rule.lint parser .javascript content location.report =
      .ok (({} : Rule).check (source false true) location.report
        (.ofTree (NestedSaga.tree true false true))) := lint_source (fun _ => rfl) _
  have hone : (({} : Rule).check (source false true) location.report
      (.ofTree (NestedSaga.tree true false true))).length = 1 := by decide +kernel
  refine ⟨isName_of_isSourceAt content, hsource, by decide +kernel, _, hlint, hone, ?_⟩
  rw [hreport content _ rfl (by simp [files]) (isBinary_source false true) hlint, if_neg]
  exact fun hnil => by simp [hnil] at hone

end YieldLint
