/-
Which files of a workspace are found.

A source file is one whose name is that of a source and that no skipped directory leads to
(`IsSourceAt`); the directory where the search begins may have any name. The search goes
down the tree and passes over the skipped directories with all that is below them, so that
it meets the source files and no other (`mem_sources_iff`), each once (`nodup_sources`). What
it answers is their paths, in ascending order of code points (`discovers_the_sources`).
-/
import Mathlib.Data.List.Nodup
import YieldLint.Linter
import YieldLint.Proofs.Components

namespace YieldLint

/-- With distinct keys, to be found is to be there. -/
theorem lookup_eq_some_iff_mem {κ α : Type} [DecidableEq κ] {l : List (κ × α)}
    (h : (l.map (·.1)).Nodup) {k : κ} {v : α} : l.lookup k = some v ↔ (k, v) ∈ l := by
  induction l with
  | nil => simp
  | cons e l ih =>
    obtain ⟨k', v'⟩ := e
    obtain ⟨hfresh, hrest⟩ := List.nodup_cons.1 h
    rw [List.lookup_cons, List.mem_cons]
    by_cases hk : k = k'
    · subst hk
      have hother : (k, v) ∉ l := fun hmem => hfresh (List.mem_map.2 ⟨_, hmem, rfl⟩)
      simp [hother, eq_comm]
    · simp [beq_eq_false_iff_ne.2 hk, hk, ih hrest]

namespace Entry

/-! ## Source files -/

/-- In each directory of a tree, the names are distinct. -/
inductive DistinctNames : Entry → Prop
  | file (content : Bytes) : DistinctNames (.file content)
  | dir {es : List (String × Entry)} (names : (es.map (·.1)).Nodup)
      (below : ∀ e ∈ es, DistinctNames e.2) : DistinctNames (.dir es)

/-- There is a source file at an address: its name is that of a source, and no directory on
the way to it is one that is skipped. -/
def IsSourceAt (e : Entry) (location : Location) : Prop :=
  ∃ dirs name content, location = dirs ++ [name] ∧ e.get? location = some (.file content) ∧
    Path.NamesSource name ∧ ∀ dir ∈ dirs, dir ∉ skippedDirs

theorem not_isSourceAt_nil (e : Entry) : ¬e.IsSourceAt [] := by
  rintro ⟨dirs, name, content, h, -⟩
  exact List.append_ne_nil_of_right_ne_nil dirs (List.cons_ne_nil name []) h.symm

theorem not_isSourceAt_of_file (content : Bytes) (location : Location) :
    ¬(file content).IsSourceAt location := by
  cases location with
  | nil => exact not_isSourceAt_nil _
  | cons name rest =>
    rintro ⟨dirs, last, c, -, hget, -⟩
    cases hget

/-- A source file is one by its name, or is below a directory that is not skipped. -/
theorem isSourceAt_cons_iff {e : Entry} {name : String} {rest : Location} :
    e.IsSourceAt (name :: rest) ↔
      (∃ content, e.child? name = some (.file content) ∧ rest = [] ∧ Path.NamesSource name) ∨
        ∃ es, e.child? name = some (.dir es) ∧ name ∉ skippedDirs ∧
          (dir es).IsSourceAt rest := by
  constructor
  · rintro ⟨dirs, last, content, hlocation, hget, hname, hdirs⟩
    obtain ⟨child, hchild, hget⟩ := Option.bind_eq_some_iff.1 hget
    cases dirs with
    | nil =>
      obtain ⟨rfl, rfl⟩ := List.cons.inj hlocation
      cases hget
      exact .inl ⟨content, hchild, rfl, hname⟩
    | cons dir dirs =>
      obtain ⟨rfl, rfl⟩ := List.cons.inj hlocation
      cases child with
      | file c => cases dirs <;> cases hget
      | dir es =>
        exact .inr ⟨es, hchild, hdirs name List.mem_cons_self, dirs, last, content, rfl, hget,
          hname, fun d hd => hdirs d (List.mem_cons_of_mem _ hd)⟩
  · rintro (⟨content, hchild, rfl, hname⟩ |
      ⟨es, hchild, hskip, dirs, last, content, rfl, hget, hname, hdirs⟩)
    · exact ⟨[], name, content, rfl, by rw [get?, hchild]; rfl, hname, nofun⟩
    · refine ⟨name :: dirs, last, content, rfl, by rw [get?, hchild]; exact hget, hname, ?_⟩
      exact List.forall_mem_cons.2 ⟨hskip, hdirs⟩

/-! ## The search -/

theorem mem_sourcesIn_iff {es : List (String × Entry)} {location : Location} :
    location ∈ sourcesIn es ↔ ∃ e ∈ es, location ∈ sourcesAt e.1 e.2 := by
  induction es with
  | nil => simp [sourcesIn]
  | cons e es ih => simp [sourcesIn, ih]

theorem mem_sourcesAt_file_iff {name : String} {content : Bytes} {location : Location} :
    location ∈ sourcesAt name (file content) ↔ location = [name] ∧ Path.NamesSource name := by
  rw [sourcesAt, ← Language.isSome_ofPath?_iff]
  split
  · rename_i h
    simp [h]
  · rename_i h
    simp [h]

theorem mem_sourcesAt_dir_iff {name : String} {es : List (String × Entry)} {location : Location} :
    location ∈ sourcesAt name (dir es) ↔
      name ∉ skippedDirs ∧ ∃ rest ∈ (dir es).sources, location = name :: rest := by
  rw [sourcesAt, List.contains_eq_mem]
  by_cases h : name ∈ skippedDirs
  · simp [h]
  · simp [h, sources, eq_comm]

/-- What is found at an entry has the name of the entry in front. -/
theorem head?_of_mem_sourcesAt {name : String} {e : Entry} {location : Location}
    (h : location ∈ sourcesAt name e) : location.head? = some name := by
  cases e with
  | file content => rw [(mem_sourcesAt_file_iff.1 h).1]; rfl
  | dir es =>
    obtain ⟨-, rest, -, rfl⟩ := mem_sourcesAt_dir_iff.1 h
    rfl

/-- The search finds the source files, and nothing else. -/
theorem mem_sources_iff {e : Entry} (h : e.DistinctNames) {location : Location} :
    location ∈ e.sources ↔ e.IsSourceAt location := by
  induction h generalizing location with
  | file content => exact iff_of_false nofun (not_isSourceAt_of_file content location)
  | @dir es names below ih =>
    cases location with
    | nil =>
      refine iff_of_false (fun hnil => ?_) (not_isSourceAt_nil _)
      obtain ⟨e, -, hnil⟩ := mem_sourcesIn_iff.1 hnil
      cases head?_of_mem_sourcesAt hnil
    | cons name rest =>
      have hchild : ∀ child, (dir es).child? name = some child ↔ (name, child) ∈ es :=
        fun child => lookup_eq_some_iff_mem names
      simp only [sources, mem_sourcesIn_iff, isSourceAt_cons_iff, hchild]
      constructor
      · rintro ⟨⟨name', child⟩, hmem, hfound⟩
        obtain rfl : name = name' := Option.some.inj (head?_of_mem_sourcesAt hfound)
        cases child with
        | file content =>
          obtain ⟨hlocation, hname⟩ := mem_sourcesAt_file_iff.1 hfound
          exact .inl ⟨content, hmem, (List.cons.inj hlocation).2, hname⟩
        | dir es' =>
          obtain ⟨hskip, rest', hrest, hlocation⟩ := mem_sourcesAt_dir_iff.1 hfound
          cases hlocation
          exact .inr ⟨es', hmem, hskip, (ih _ hmem).1 hrest⟩
      · rintro (⟨content, hmem, rfl, hname⟩ | ⟨es', hmem, hskip, hrest⟩)
        · exact ⟨_, hmem, mem_sourcesAt_file_iff.2 ⟨rfl, hname⟩⟩
        · exact ⟨_, hmem, mem_sourcesAt_dir_iff.2 ⟨hskip, rest, (ih _ hmem).2 hrest, rfl⟩⟩

theorem nodup_sourcesIn {es : List (String × Entry)} (names : (es.map (·.1)).Nodup)
    (each : ∀ e ∈ es, (sourcesAt e.1 e.2).Nodup) : (sourcesIn es).Nodup := by
  induction es with
  | nil => exact List.nodup_nil
  | cons e es ih =>
    obtain ⟨hfresh, hnames⟩ := List.nodup_cons.1 names
    obtain ⟨hself, hrest⟩ := List.forall_mem_cons.1 each
    rw [sourcesIn, List.nodup_append]
    refine ⟨hself, ih hnames hrest, ?_⟩
    rintro location hfirst _ hother rfl
    obtain ⟨e', he', hother⟩ := mem_sourcesIn_iff.1 hother
    have hname : some e.1 = some e'.1 :=
      (head?_of_mem_sourcesAt hfirst).symm.trans (head?_of_mem_sourcesAt hother)
    exact hfresh (List.mem_map.2 ⟨e', he', (Option.some.inj hname).symm⟩)

/-- Each source file is found once. -/
theorem nodup_sources {e : Entry} (h : e.DistinctNames) : e.sources.Nodup := by
  induction h with
  | file content => exact List.nodup_nil
  | @dir es names below ih =>
    refine nodup_sourcesIn names fun e he => ?_
    obtain ⟨name, child⟩ := e
    cases child with
    | file content =>
      rw [sourcesAt]
      split
      · exact List.nodup_singleton _
      · exact List.nodup_nil
    | dir es' =>
      rw [sourcesAt]
      split
      · exact List.nodup_nil
      · exact (ih _ he).map fun _ _ h => (List.cons.inj h).2

end Entry

/-! ## The answer -/

/-- The path to an address as it is reported, with slashes only. -/
def Location.report (location : Location) : String :=
  Path.normalize (Text.joinWith "/" location)

namespace Text

/-- One text comes before another by the first of their code points that differ; a text that
goes on comes after what it begins with. -/
def Before (a b : String) : Prop :=
  List.Lex (· < ·) (a.toList.map Char.toNat) (b.toList.map Char.toNat)

theorem lex_map_toNat {as bs : List Char} (h : List.Lex (· < ·) as bs) :
    List.Lex (· < ·) (as.map Char.toNat) (bs.map Char.toNat) := by
  induction h with
  | nil => exact .nil
  | rel hlt => exact .rel hlt
  | cons _ ih => exact .cons ih

theorem eq_or_before {a b : String} (h : a ≤ b) : a = b ∨ Before a b := by
  by_cases hba : b ≤ a
  · exact .inl (String.le_antisymm h hba)
  · exact .inr (lex_map_toNat (String.not_le.1 hba))

theorem pairwise_ascending (texts : List String) :
    (ascending texts).Pairwise fun a b => a = b ∨ Before a b := by
  have hsorted := List.pairwise_mergeSort (fun a b c (hab : decide (a ≤ b) = true) hbc =>
      decide_eq_true (String.le_trans (of_decide_eq_true hab) (of_decide_eq_true hbc)))
    (fun a b => by simpa using String.le_total a b) texts
  exact hsorted.imp fun hab => eq_or_before (of_decide_eq_true hab)

end Text

theorem Linter.discover_eq {fs : FileSystem} {l : Linter} {e : Entry}
    (hroot : fs.entry? l.root = some e) :
    l.discover fs = Text.ascending (e.sources.map Location.report) := by
  rw [discover, FileSystem.sources, hroot]
  rfl

theorem Linter.report_mem_discover {fs : FileSystem} {l : Linter} {e : Entry}
    (hroot : fs.entry? l.root = some e) (hnames : e.DistinctNames) {location : Location}
    (hsource : e.IsSourceAt location) : location.report ∈ l.discover fs := by
  rw [discover_eq hroot]
  exact (List.mergeSort_perm _ _).mem_iff.2
    (List.mem_map_of_mem ((e.mem_sources_iff hnames).2 hsource))

/-- **The search answers the source files of the workspace.** In a workspace that is a tree of
directories with distinct names in each of them, it answers a row of paths in ascending
order of their code points: the paths of the source files with slashes only, one for each
file, and nothing else. A source file is one whose name has a known extension, in upper or
lower case, and that no skipped directory leads to. -/
theorem Linter.discovers_the_sources {fs : FileSystem} {l : Linter} {e : Entry}
    (hroot : fs.entry? l.root = some e) (hnames : e.DistinctNames) :
    ∃ found : List Location, found.Nodup ∧
      (∀ location, location ∈ found ↔ e.IsSourceAt location) ∧
      (l.discover fs).Perm (found.map Location.report) ∧
      (l.discover fs).Pairwise fun a b => a = b ∨ Text.Before a b := by
  rw [discover_eq hroot]
  exact ⟨e.sources, e.nodup_sources hnames, fun _ => e.mem_sources_iff hnames,
    List.mergeSort_perm _ _, Text.pairwise_ascending _⟩

/-! ## A small workspace -/

namespace SmallWorkspace

variable (content : Bytes)

/-- A directory with sources and other files, all with the same contents. -/
def saga : Entry :=
  .dir [("a.js", .file content), (".js", .file content), ("c\\d.jsx", .file content),
    ("build", .dir [("e.ts", .file content)])]

def entry : Entry :=
  .dir [("saga", saga content), ("b.TS", .file content), ("readme.md", .file content),
    ("node_modules", .dir [("f.js", .file content)])]

/-- The workspace has the name of a directory to be skipped. -/
def files : FileSystem where
  root := .dir [("dist", entry content)]

theorem distinctNames_entry : (entry content).DistinctNames := by
  have hone : ∀ name : String, (Entry.dir [(name, .file content)]).DistinctNames := by
    intro name
    refine .dir (by simp) ?_
    exact List.forall_mem_cons.2 ⟨.file content, nofun⟩
  have hsaga : (saga content).DistinctNames := by
    refine .dir (by simp) ?_
    simp only [List.forall_mem_cons]
    exact ⟨.file content, .file content, .file content, hone "e.ts", nofun⟩
  refine .dir (by simp) ?_
  simp only [List.forall_mem_cons]
  exact ⟨hsaga, .file content, .file content, hone "f.js", nofun⟩

end SmallWorkspace

open SmallWorkspace in
/-- Three files are sources; one of them has a backslash in its name. -/
theorem discovers_the_sources_of_smallWorkspace :
    FileSystem.entry? (files []) "dist" = some (entry []) ∧ (entry []).DistinctNames ∧
      Linter.discover (files []) { root := "dist" } = ["b.TS", "saga/a.js", "saga/c/d.jsx"] ∧
      ∃ found : List Location, found.length = 3 ∧
        ∀ location, location ∈ found ↔ (entry []).IsSourceAt location := by
  have hroot : FileSystem.entry? (files []) (Linter.root { root := "dist" }) =
      some (entry []) := by rfl
  have hreports : (entry []).sources.map Location.report =
      ["saga/a.js", "saga/c/d.jsx", "b.TS"] := by decide +kernel
  have hdiscover : Linter.discover (files []) { root := "dist" } =
      ["b.TS", "saga/a.js", "saga/c/d.jsx"] := by
    rw [Linter.discover_eq hroot, hreports]
    simp [Text.ascending, List.mergeSort]
  obtain ⟨found, -, hfound, hperm, -⟩ :=
    Linter.discovers_the_sources hroot (distinctNames_entry [])
  have hlength := hperm.length_eq
  rw [hdiscover, List.length_map] at hlength
  exact ⟨hroot, distinctNames_entry [], hdiscover, found, hlength.symm, hfound⟩

end YieldLint
