/-
What the summary of all fixes of a file tells.

A summary counts in rows. The number of a row ends at the blank behind it, so it can be read
back from the text, and what stands behind the row too (`metric_append_inj`). No other answer
begins as a summary does. So a call that answers with a summary has made the fixes, and
counted just what its rows say (`exists_fixed_of_fixedText`).
-/
import YieldLint.Proofs.Guards

namespace YieldLint

namespace Session

/-! ## Rows -/

/-- A number that is written ends at a blank. -/
theorem toString_append_blank_inj {a b : Nat} {t u : List Char}
    (h : (toString a).toList ++ ' ' :: t = (toString b).toList ++ ' ' :: u) : a = b ∧ t = u := by
  have hdigits : ∀ n : Nat, ∀ c ∈ (toString n).toList, c.isDigit = true := by
    intro n c hc
    rw [Nat.toString_eq_repr, Nat.toList_repr] at hc
    exact Nat.isDigit_of_mem_toDigits (by decide) (by decide) hc
  have hread : ∀ (n : Nat) (v : List Char),
      ((toString n).toList ++ ' ' :: v).takeWhile Char.isDigit = (toString n).toList := by
    intro n v
    rw [List.takeWhile_append_of_pos (hdigits n), List.takeWhile_cons_of_neg (by decide),
      List.append_nil]
  have hsame : (toString a).toList = (toString b).toList := by rw [← hread a t, h, hread b u]
  rw [hsame] at h
  exact ⟨Nat.repr_injective (String.toList_inj.1 hsame),
    (List.cons.inj (List.append_cancel_left h)).2⟩

/-- The count of a row, and what stands behind the row, can be read back. -/
theorem metric_append_inj {name : String} {a b : Nat} {t u : String}
    (h : metric name a ++ t = metric name b ++ u) : a = b ∧ t = u := by
  simp only [metric, String.append_assoc] at h
  iterate 3 rw [String.append_right_inj] at h
  have hlist := congrArg String.toList h
  simp only [String.toList_append] at hlist
  obtain ⟨hcount, hrest⟩ := toString_append_blank_inj hlist
  have hbar : "|\n".toList ++ t.toList = "|\n".toList ++ u.toList := hrest
  exact ⟨hcount, String.toList_inj.1 (List.append_cancel_left hbar)⟩

/-! ## Summaries -/

/-- The summary of a dry run. -/
def previewText (path : String) (before fixes : Nat) (message : String) : String :=
  fixSummary path before (metric "Would fix" fixes) message

/-- The summary of the fixes that were made. -/
def fixedText (path : String) (before applied passes left : Nat) (message : String) : String :=
  fixSummary path before
    (metric "Edits applied" applied ++ metric "Passes" passes ++
      metric "Violations remaining" left) message

/-- Summaries of one file begin alike, up to the count of the violations before. -/
theorem fixSummary_eq (path : String) : ∃ title : String, title.toList.head? = some '#' ∧
    ∀ before counts message, fixSummary path before counts message =
      title ++ (metric "Violations before" before ++ (counts ++ ("\n" ++ message ++ "\n"))) := by
  refine ⟨"## Fix All — `" ++ path ++ "`\n\n| Metric | Count |\n|--------|-------|\n", ?_, ?_⟩
  · exact head?_toList_append (head?_toList_append (by decide +kernel) path) _
  · intro before counts message
    have hnest : ∀ a b c d e f : String,
        a ++ b ++ c ++ d ++ e ++ f = a ++ (b ++ (c ++ (d ++ e ++ f))) :=
      fun _ _ _ _ _ _ => by simp only [String.append_assoc]
    exact hnest _ _ _ _ _ _

theorem fixedText_inj {path : String} {before applied passes left : Nat} {message : String}
    {before' applied' passes' left' : Nat} {message' : String}
    (h : fixedText path before applied passes left message =
      fixedText path before' applied' passes' left' message') :
    before = before' ∧ applied = applied' ∧ passes = passes' ∧ left = left' := by
  obtain ⟨title, -, hsummary⟩ := fixSummary_eq path
  have hrows : ∀ a b c t : String, a ++ b ++ c ++ t = a ++ (b ++ (c ++ t)) :=
    fun _ _ _ _ => by simp only [String.append_assoc]
  rw [fixedText, fixedText, hsummary, hsummary, String.append_right_inj] at h
  obtain ⟨hbefore, h⟩ := metric_append_inj h
  rw [hrows, hrows] at h
  obtain ⟨happlied, h⟩ := metric_append_inj h
  obtain ⟨hpasses, h⟩ := metric_append_inj h
  obtain ⟨hleft, -⟩ := metric_append_inj h
  exact ⟨hbefore, happlied, hpasses, hleft⟩

theorem head?_fixedText (path : String) (before applied passes left : Nat) (message : String) :
    (fixedText path before applied passes left message).toList.head? = some '#' := by
  obtain ⟨title, hhead, hsummary⟩ := fixSummary_eq path
  rw [fixedText, hsummary]
  exact head?_toList_append hhead _

/-! ## Calls that answer with a summary -/

variable {parser : Parser} {s s' : Session} {path message : String}
  {before applied passes left : Nat}

/-- A call that answers with the summary of fixes has made them, and counted so. -/
theorem exists_fixed_of_fixedText
    (h : s.call parser (.fixAll path false) =
      (s', .ok (fixedText path before applied passes left message))) :
    ∃ w o files linter, s.workspace? = some w ∧ s.reported parser w path ≠ [] ∧
      Fixer.fixFile parser s.files (s.looking parser w path).linter path false =
        .ok (o, files, linter) ∧
      s' = s.verifying parser w path files linter ∧
      before = (s.reported parser w path).length ∧ applied = o.applied ∧ passes = o.passes ∧
      left = (linter.lintFile parser files path).1.length := by
  have hhead := head?_fixedText path before applied passes left message
  cases hw : s.workspace? with
  | none =>
    rw [call, fixAll, hw] at h
    rw [← Except.ok.inj (Prod.mk.inj h).2] at hhead
    exact absurd hhead (by decide +kernel)
  | some w =>
    have hcall : FixesFile parser s w path false (s.call parser (.fixAll path false)) :=
      fixesFile_fixAll hw
    rw [h] at hcall
    generalize htext : fixedText path before applied passes left message = text at hcall hhead
    cases hcall with
    | clean nothing =>
      have hno := head?_toList_append (head?_toList_append
        (by decide +kernel : "No violations found for `".toList.head? = some 'N') path) "`."
      cases hno.symm.trans hhead
    | @unwritten e dirty fix file =>
      have herror := head?_toList_append
        (by decide +kernel : "Error applying fixes: ".toList.head? = some 'E') e.message
      cases herror.symm.trans hhead
    | @brokenOff language old fixed location fault dry dirty makes breaks =>
      have herror := head?_toList_append
        (by decide +kernel : "Error applying fixes: ".toList.head? = some 'E') fault.reason
      cases herror.symm.trans hhead
    | previewed dry => cases dry
    | @fixed o files linter dry dirty fix =>
      obtain ⟨hbefore, happlied, hpasses, hleft⟩ := fixedText_inj htext
      exact ⟨w, o, files, linter, rfl, dirty, fix, rfl, hbefore, happlied, hpasses, hleft⟩

end Session

namespace BinarySaga

open DeepSaga (files holds_files)

/-- The workspace of the saga without a zero, loaded. -/
def loaded : Session := ⟨files (source false false), some { linter := { root := "ws" } }⟩

theorem load?_source (starred : Bool) :
    Document.load? parser (files (source starred false)) "ws/a.js" =
      some ⟨source starred false, ⟨NestedSaga.tree true starred true, false⟩⟩ :=
  Document.load?_eq_some_iff.2 ⟨.javascript, NestedSaga.ofPath?_ws, (holds_files _).read,
    isBinary_source starred false, parser_source starred false .javascript⟩

theorem reported_loaded : (loaded.reported parser { linter := { root := "ws" } } "a.js").length =
    1 := by
  rw [Session.reported, Linter.lintFile_fst, Linter.found, Table.get?_empty, NestedSaga.resolve_ws]
  dsimp only [loaded]
  rw [load?_source]
  decide +kernel

/-- All fixes of the saga are one edit, and leave nothing. -/
theorem fixAll_loaded : ∃ s' passes message, loaded.call parser (.fixAll "a.js" false) =
    (s', .ok (Session.fixedText "a.js" 1 1 passes 0 message)) := by
  let l := (loaded.looking parser { linter := { root := "ws" } } "a.js").linter
  have hresolve : l.resolve "a.js" = "ws/a.js" :=
    (Linter.resolve_lintFile ..).trans NestedSaga.resolve_ws
  have hrule : l.rule = {} := Linter.rule_lintFile ..
  have hwrites : Fixer.WritesFixed parser l.rule loaded.files (l.resolve "a.js") .javascript
      (source false false) ⟨source true false, 1, 1⟩
      ((files (source false false)).store ["ws", "a.js"] (source true false)) := by
    rw [hrule, hresolve, ← NestedSaga.resolve_ws]
    exact writesFixed false
  obtain ⟨o, hfix, -, happlied⟩ := Fixer.fixFile_of_writes hwrites
  have hleft : ((l.invalidate "a.js").lintFile parser
      ((files (source false false)).store ["ws", "a.js"] (source true false)) "a.js").1 = [] := by
    have hfiles : (files (source false false)).store ["ws", "a.js"] (source true false) =
        files (source true false) := by rfl
    rw [Linter.lintFile_invalidate_fst, hresolve, hfiles, load?_source, hrule]
    decide +kernel
  have hcall : Session.FixesFile parser loaded { linter := { root := "ws" } } "a.js" false
      (loaded.call parser (.fixAll "a.js" false)) := Session.fixesFile_fixAll rfl
  have hbefore := reported_loaded
  have hexec := Fixer.fixFile_eq_ok_iff.1 hfix
  generalize loaded.call parser (.fixAll "a.js" false) = r at hcall ⊢
  cases hcall with
  | clean nothing =>
    rw [nothing] at hbefore
    cases hbefore
  | unwritten _ fix => cases fix.symm.trans hexec
  | refused _ fix => cases fix.symm.trans hexec
  | previewed dry => cases dry
  | @brokenOff _ _ _ location _ _ _ _ breaks =>
    have hsound : loaded.files.fault? location = none := rfl
    cases hsound.symm.trans breaks.fails
  | fixed _ _ fix =>
    cases fix.symm.trans hfix
    refine ⟨_, o.passes, o.message, Prod.ext rfl ?_⟩
    rw [hbefore, happlied, hleft]
    rfl

end BinarySaga

end YieldLint
