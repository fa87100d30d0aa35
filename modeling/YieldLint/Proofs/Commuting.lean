/-
Requests on different files can be exchanged.

A tool that is asked about one path leaves a session that agrees with the one before on
every path that is apart from it (`agreesOn_call`). So a tool that is asked about such a path
does the same before and after (`callsAlike_call`); and as the two write to different files,
change documents under different keys and statuses of different paths, it does not matter
which of them is called first (`tools_on_different_files_commute`).
-/
import YieldLint.Proofs.Agreement

namespace YieldLint

/-- Two paths that differ and do not lead to one file. -/
structure FileSystem.Apart (fs : FileSystem) (p q : String) : Prop where
  ne : p ≠ q
  leads : ∀ location, fs.locate? p = some location → fs.locate? q ≠ some location

namespace FileSystem.Apart

variable {fs : FileSystem} {p q : String}

theorem symm (h : fs.Apart p q) : fs.Apart q p where
  ne := h.ne.symm
  leads location hq hp := h.leads location hp hq

theorem of_leads {a b : Location} (hp : fs.locate? p = some a) (hq : fs.locate? q = some b)
    (hne : a ≠ b) : fs.Apart p q where
  ne h := by
    rw [h, hq] at hp
    exact hne (Option.some.inj hp).symm
  leads location hp' hq' := by
    rw [hp] at hp'
    rw [hq, ← hp'] at hq'
    exact hne (Option.some.inj hq').symm

end FileSystem.Apart

/-! ## Two changes that have nothing in common -/

theorem FileSystem.WritesAlike.comm {p q : String} {fs fsF fsG fsFG fsGF : FileSystem}
    (h : WritesAlike p fs fsF fsG fsGF) (h' : WritesAlike q fs fsG fsF fsFG)
    (hapart : fs.Apart p q) : fsGF = fsFG := by
  rcases h with ⟨rfl, rfl⟩ | ⟨a, old, new, hp, hold, rfl, rfl⟩
  · rcases h' with ⟨rfl, rfl⟩ | ⟨b, old', new', hq, hold', rfl, rfl⟩
    · rfl
    · rfl
  · rcases h' with ⟨rfl, rfl⟩ | ⟨b, old', new', hq, hold', rfl, rfl⟩
    · rfl
    · have hne : a ≠ b := fun he => hapart.leads a hp (by rw [hq, he])
      exact (store_comm hold hold' hne new new').symm

/-- Two changes of a look-up, of keys that none has in common with the other, come to the
same in both orders if each is the same before the other and after it. -/
theorem lookup_comm {κ α : Type} {P Q : κ → Prop} {t tF tG tFG tGF : κ → α}
    (hapart : ∀ k, P k → ¬Q k) (hF : ∀ k, ¬P k → tF k = t k) (hG : ∀ k, ¬Q k → tG k = t k)
    (hFG : ∀ k, ¬Q k → tFG k = tF k) (hGF : ∀ k, ¬P k → tGF k = tG k)
    (hsameF : ∀ k, P k → tGF k = tF k) (hsameG : ∀ k, Q k → tFG k = tG k) (k : κ) :
    tGF k = tFG k := by
  by_cases hp : P k
  · rw [hsameF k hp, hFG k (hapart k hp)]
  · rw [hGF k hp]
    by_cases hq : Q k
    · rw [hsameG k hq]
    · rw [hG k hq, hFG k hq, hF k hp]

/-! ## Tools -/

theorem Tool.path?_of_fixes? {t : Tool} {path : String} (h : t.fixes? = some path) :
    t.path? = some path := by
  unfold fixes? at h
  split at h
  · exact h
  · exact h
  · cases h

namespace Session

/-- Two sessions with the same files, and workspaces that cannot be told apart: under every
key they have the same document and the same status. -/
structure Same (s s' : Session) : Prop where
  files : s'.files = s.files
  workspaces : ∃ w w', s.workspace? = some w ∧ s'.workspace? = some w' ∧
    w'.linter.root = w.linter.root ∧ w'.linter.rule = w.linter.rule ∧
    (∀ key, w'.linter.cache.get? key = w.linter.cache.get? key) ∧
    ∀ key, w'.statuses.get? key = w.statuses.get? key

variable (parser : Parser) {s : Session} {w : Workspace} {f g : Tool} {p q : String}

theorem normalize_ne {l : Linter} (h : l.resolve p ≠ l.resolve q) :
    Path.normalize p ≠ Path.normalize q :=
  fun he => h (by rw [Linter.resolve, Linter.resolve, he])

theorem agreesOn_files_call (hg : g.path? = some q) (hw : s.workspace? = some w)
    (hapart : s.files.Apart (w.linter.resolve p) (w.linter.resolve q)) :
    s.files.AgreesOn (w.linter.resolve p) (s.call parser g).1.files := by
  rcases keepsFiles_call parser s g with
    hsame | ⟨w', path, location, old, new, hw', hfixes, hleads, hfiles, hover⟩
  · rw [hsame]
    exact .refl _ _
  · obtain rfl := Option.some.inj (hw.symm.trans hw')
    obtain rfl := Option.some.inj ((Tool.path?_of_fixes? hfixes).symm.trans hg)
    rw [hfiles]
    exact .store hover.held new fun hp => hapart.leads location hp hleads

/-- After a tool is asked about one path, sessions agree on another that is apart. -/
theorem agreesOn_call (hg : g.path? = some q) (hw : s.workspace? = some w)
    (hapart : s.files.Apart (w.linter.resolve p) (w.linter.resolve q)) :
    ∃ w', Workspace.OnlyAt q (fun key => key.path = Path.normalize q) w w' ∧
      AgreesOn p w w' s (s.call parser g).1 := by
  obtain ⟨w', hw', honly⟩ := onlyAt_call parser hg hw
  refine ⟨w', honly, hw, hw', agreesOn_files_call parser hg hw hapart, ?_, ?_⟩
  · exact ⟨honly.linter.root, honly.linter.rule, honly.linter.elsewhere _ hapart.ne⟩
  · intro key hkey
    refine honly.statuses key fun hq => normalize_ne hapart.ne ?_
    rw [← hkey, hq]

/-- **Tools on different files can be exchanged.** In whatever state a session with a loaded
workspace is, let two tools be asked about paths that are apart, each to list violations, to
propose, apply or check a fix, or to make all fixes. Whichever is called first, both answer
the same or fail alike, and the session comes to the same: the same files, and under every
key the same document and the same status. -/
theorem tools_on_different_files_commute (hw : s.workspace? = some w)
    (hf : f.path? = some p) (hg : g.path? = some q)
    (hapart : s.files.Apart (w.linter.resolve p) (w.linter.resolve q)) :
    let fg := (s.call parser f).1.call parser g
    let gf := (s.call parser g).1.call parser f
    Same fg.1 gf.1 ∧ gf.2 = (s.call parser f).2 ∧ fg.2 = (s.call parser g).2 := by
  -- the workspace after one call is `wF` or `wG`, after both `wFG` or `wGF`
  obtain ⟨wG, honlyG, hagreeP⟩ := agreesOn_call parser hg hw hapart
  obtain ⟨wF, honlyF, hagreeQ⟩ := agreesOn_call parser hf hw hapart.symm
  have hcallF := hagreeP.callsAlike_call parser hf
  have hcallG := hagreeQ.callsAlike_call parser hg
  obtain ⟨wF', wGF, hwF', hwGF, hsameF⟩ := hcallF.workspaces
  obtain ⟨wG', wFG, hwG', hwFG, hsameG⟩ := hcallG.workspaces
  obtain rfl := Option.some.inj (hagreeQ.loaded'.symm.trans hwF')
  obtain rfl := Option.some.inj (hagreeP.loaded'.symm.trans hwG')
  obtain ⟨wFG', hwFG', honlyFG⟩ := onlyAt_call parser hg hagreeQ.loaded'
  obtain ⟨wGF', hwGF', honlyGF⟩ := onlyAt_call parser hf hagreeP.loaded'
  obtain rfl := Option.some.inj (hwFG.symm.trans hwFG')
  obtain rfl := Option.some.inj (hwGF.symm.trans hwGF')
  refine ⟨⟨hcallF.files.comm hcallG.files hapart, wFG, wGF, hwFG, hwGF, ?_, ?_, ?_, ?_⟩,
    hcallF.answer, hcallG.answer⟩
  · rw [hsameF.linter.root, honlyFG.linter.root]
  · rw [hsameF.linter.rule, honlyFG.linter.rule]
  -- a document changes under the key of one path at most, a status on the lines of one
  · refine lookup_comm (P := (· = w.linter.resolve p)) (Q := (· = w.linter.resolve q))
      (fun key hp hq => hapart.ne (hp.symm.trans hq)) honlyF.linter.elsewhere
      honlyG.linter.elsewhere ?_ ?_ ?_ ?_
    · rw [← honlyF.linter.resolve q]
      exact honlyFG.linter.elsewhere
    · rw [← honlyG.linter.resolve p]
      exact honlyGF.linter.elsewhere
    · rintro key rfl
      rw [← honlyF.linter.resolve p]
      exact hsameF.linter.document
    · rintro key rfl
      rw [← honlyG.linter.resolve q]
      exact hsameG.linter.document
  · exact lookup_comm
      (fun key hp hq => normalize_ne hapart.ne (hp.symm.trans hq)) honlyF.statuses
      honlyG.statuses honlyFG.statuses honlyGF.statuses hsameF.statuses hsameG.statuses

end Session

namespace NestedSaga

/-- A workspace with two files. -/
def twoFiles (a b : Bytes) : FileSystem where
  root := .dir [("ws", .dir [("a.js", .file a), ("b.js", .file b)])]

theorem holds_twoFiles (a b : Bytes) : (twoFiles a b).Holds "ws/a.js" ["ws", "a.js"] a where
  leads := by rfl
  readable := List.not_mem_nil
  writable := List.not_mem_nil
  sound := rfl
  holds := by rfl

end NestedSaga

open NestedSaga in
/-- The saga is in two files. The fix of the outer yield in one of them, and the check of it
in the other, are the same in both orders. -/
theorem commute_nestedSaga :
    let w : Workspace := { linter := { root := "ws" } }
    let s : Session := ⟨twoFiles (source false true) (source false true), some w⟩
    let f := Tool.applyFix "a.js" 1
    let g := Tool.verifyFix "b.js" 1
    s.files.Apart (w.linter.resolve "a.js") (w.linter.resolve "b.js") ∧
      (s.call parser f).1.files = twoFiles (source true true) (source false true) ∧
      Session.Same ((s.call parser f).1.call parser g).1 ((s.call parser g).1.call parser f).1 ∧
      ((s.call parser g).1.call parser f).2 = .ok (Session.appliedText "a.js" none 1 0) := by
  intro w s f g
  have hother : w.linter.resolve "b.js" = "ws/b.js" := by decide +kernel
  have hholds := holds_twoFiles (source false true) (source false true)
  have hapart : s.files.Apart (w.linter.resolve "a.js") (w.linter.resolve "b.js") := by
    rw [resolve_ws, hother]
    exact .of_leads (b := ["ws", "b.js"]) hholds.leads rfl (by decide)
  have hfound : w.linter.found parser s.files "ws/a.js" = some (document false true) :=
    load?_source (fun _ => rfl) ofPath?_ws hholds.read
  obtain ⟨target, hcall⟩ := applyFix_source (s := s) (w := w) rfl rfl resolve_ws hfound
    hholds.read apply_source (hholds.write _)
  obtain ⟨hsame, hanswer, -⟩ := Session.tools_on_different_files_commute parser (s := s) (w := w)
    (f := f) (g := g) rfl rfl rfl hapart
  refine ⟨hapart, ?_, hsame, ?_⟩
  · rw [Session.call, hcall]
    rfl
  · rw [hanswer, Session.call, hcall]

end YieldLint
