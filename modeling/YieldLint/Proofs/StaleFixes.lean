/-
What applying the fixes of a line does to a file that is not as it was linted.

The edits are those of the document that the linter finds for the path, which may be kept
since long ago; the bytes are those that the file holds now. So the edits put stars into
the document (`stars_editsFor`), and into the file only where it holds what the document
holds there (`Edit.filter_apply`, `applyFix_puts_in_stars`). Elsewhere they overwrite what
has come to stand there: `overwritten_nestedSaga`.
-/
import YieldLint.Proofs.Spellings

namespace YieldLint

/-! ## Edits and the bytes that they replace -/

namespace Edit

/-- Replaces bytes by the same bytes, some of them aside. -/
def Preserves (p : UInt8 → Bool) (content : Bytes) (e : Edit) : Prop :=
  (Utf8.encode e.text).filter p = (gap content e.startByte.toNat e.endByte.toNat).filter p

theorem filter_weave {p : UInt8 → Bool} {content : Bytes} : ∀ (es : List Edit) (start : Nat),
    (∀ e ∈ es, e.InBounds content.length ∧ e.Preserves p content) → es.Pairwise Precedes →
    (∀ e ∈ es, (start : Int) ≤ e.startByte) →
    (weave content start es).filter p = (content.drop start).filter p
  | [], _, _, _, _ => rfl
  | e :: es, start, hes, hsorted, hstart => by
    obtain ⟨hin, hkeeps⟩ := hes e (by simp)
    obtain ⟨hse, -⟩ := hin.toNat_le
    obtain ⟨he, hsorted⟩ := List.pairwise_cons.1 hsorted
    have hs : start ≤ e.startByte.toNat := by
      have := hstart e (by simp)
      omega
    have hbehind := filter_weave es e.endByte.toNat (fun f hf => hes f (by simp [hf])) hsorted
      fun f hf => hin.toNat_endByte_le (he f hf).2
    rw [weave, ← gap_append_drop content (Nat.le_trans hs hse), ← gap_append_gap content hs hse]
    simp only [List.filter_append, hbehind]
    rw [hkeeps]

/-- Where the edits that are applied preserve some bytes, the buffer keeps them. -/
theorem filter_apply {p : UInt8 → Bool} {content : Bytes} {edits : List Edit}
    (h : ∀ a ∈ used content edits, a.1.Preserves p content) :
    (apply content edits).content.filter p = content.filter p := by
  have hused : ∀ e ∈ (used content edits).map (·.1),
      e.InBounds content.length ∧ e.Preserves p content := by
    intro e he
    obtain ⟨a, ha, rfl⟩ := List.mem_map.1 he
    exact ⟨(mem_used ha).2, h a ha⟩
  have hweave := filter_weave _ 0 hused (List.pairwise_map.2 (pairwise_used content edits))
    fun e he => (hused e he).1.1
  rw [apply_eq, hweave, List.drop_zero]

theorem filter_apply_iff_of_used {p : UInt8 → Bool} {content : Bytes} {edits : List Edit}
    {a : Edit × Nat} (h : used content edits = [a]) :
    (apply content edits).content.filter p = content.filter p ↔ a.1.Preserves p content := by
  have hmem : a ∈ used content edits := by
    rw [h]
    exact List.mem_singleton_self a
  have hin : a.1.InBounds content.length := (mem_used hmem).2
  have hold : content.filter p = (gap content 0 a.1.startByte.toNat).filter p ++
      (gap content a.1.startByte.toNat a.1.endByte.toNat).filter p ++
        (content.drop a.1.endByte.toNat).filter p := by
    rw [← List.filter_append, gap_append_gap content (Nat.zero_le _) hin.toNat_le.1,
      ← List.filter_append, gap_append_drop content (Nat.zero_le _), List.drop_zero]
  have hnew : (apply content edits).content = gap content 0 a.1.startByte.toNat ++
      Utf8.encode a.1.text ++ content.drop a.1.endByte.toNat := by
    rw [apply_eq, h]
    rfl
  rw [hnew, hold, List.filter_append, List.filter_append, List.append_cancel_right_eq,
    List.append_cancel_left_eq, Preserves]

/-- Two buffers hold the same in the range of an edit, stars aside. -/
def Alike (a b : Bytes) (e : Edit) : Prop :=
  (gap a e.startByte.toNat e.endByte.toNat).filter (· != star) =
    (gap b e.startByte.toNat e.endByte.toNat).filter (· != star)

theorem Stars.preserves_iff {linted content : Bytes} {e : Edit} (h : e.Stars linted) :
    e.Preserves (· != star) content ↔ e.Alike content linted := by
  obtain ⟨rest, hyield, htext⟩ := h
  have hsame : (Utf8.encode "yield*").filter (· != star) =
      (Utf8.encode "yield").filter (· != star) := by decide
  rw [Preserves, Alike, hyield, htext, List.filter_append, List.filter_append, hsame, eq_comm]

end Edit

/-! ## The document of a fix -/

theorem Target.violations_subset {path : String} {line : Int} {vs : List Violation}
    {target : Target} (h : Target.find? path line vs = some target) :
    ∀ v ∈ target.violations, v ∈ vs := by
  cases vs with
  | nil => cases h
  | cons first rest =>
    rw [Target.find?] at h
    intro v hv
    split at h
    · obtain rfl := Option.some.inj h
      exact (List.mem_filter.1 hv).1
    · obtain rfl := Option.some.inj h
      exact (List.mem_filter.1 hv).1

namespace Session

variable {parser : Parser} {s : Session} {w : Workspace} {path : String} {line : Int}
  {d : Document}

theorem stars_editsFor (hp : parser.SpellsYields)
    (hfound : w.linter.found parser s.files (w.linter.resolve path) = some d)
    {language : Language} (hparsed : parser language d.source = .ok d.parsed) {e : Edit}
    (he : e ∈ s.editsFor parser w path line) :
    e.InBounds d.source.length ∧ e.Stars d.source := by
  rw [editsFor] at he
  split at he
  · rename_i target hfind
    obtain ⟨v, hv, hfix⟩ := List.mem_filterMap.1 he
    have hreported : v ∈ s.reported parser w path := Target.violations_subset hfind v hv
    rw [reported, Linter.lintFile_fst, hfound, Linter.report] at hreported
    have hall : e ∈ Fixer.editsOf
        (w.linter.rule.check d.source (Path.normalize path) d.parsed.root) :=
      List.mem_filterMap.2 ⟨v, hreported, hfix⟩
    rw [Fixer.editsOf_check, ← Fixer.editsOf_check w.linter.rule d.source ""] at hall
    exact Fixer.stars_editsOf hp (Fixer.lint_eq_ok_iff.2 ⟨d.parsed, hparsed, rfl⟩) hall
  · cases he

theorem exists_found_of_editsFor (h : s.editsFor parser w path line ≠ []) :
    ∃ d, w.linter.found parser s.files (w.linter.resolve path) = some d := by
  cases hfound : w.linter.found parser s.files (w.linter.resolve path) with
  | some d => exact ⟨d, rfl⟩
  | none =>
    rw [editsFor, reported, Linter.lintFile_fst, hfound] at h
    exact absurd rfl h

/-- A document that is found for a key, its file gave at some moment since when the linter
has not been made to forget the key. -/
theorem exists_moment_of_found {key : String} (hs : ∀ key d, ¬s.Keeps key d) (cs : List Command)
    (hw : (s.after parser cs).workspace? = some w)
    (hfound : w.linter.found parser (s.after parser cs).files key = some d) :
    ∃ before since, cs = before ++ since ∧
      Document.load? parser (s.after parser before).files key = some d ∧
      Spares parser key (s.after parser before) since := by
  rw [Linter.found] at hfound
  split at hfound
  · rename_i d' hkept
    obtain rfl := Option.some.inj hfound
    exact exists_moment_of_keeps hs cs ⟨w, hw, hkept⟩
  · exact ⟨cs, [], by simp, hfound, trivial⟩

/-! ## Reports of success -/

theorem head?_toList_append {t : String} {c : Char} (h : t.toList.head? = some c)
    (u : String) : (t ++ u).toList.head? = some c := by
  rw [String.toList_append, List.head?_append, h, Option.some_or]

theorem head?_appliedText (path : String) (note : Option String) (applied skipped : Nat) :
    ∃ c, (c = 'S' ∨ c = '>') ∧
      (appliedText path note applied skipped).toList.head? = some c := by
  cases note with
  | none =>
    refine ⟨'S', .inl rfl, ?_⟩
    rw [appliedText]
    iterate 7 refine head?_toList_append ?_ _
    rfl
  | some n =>
    refine ⟨'>', .inr rfl, ?_⟩
    rw [appliedText]
    iterate 8 refine head?_toList_append ?_ _
    exact head?_toList_append (head?_toList_append (by decide) n) "\n\n"

theorem FixesLine.of_appliedText {s' : Session} {note : Option String} {applied skipped : Nat}
    (h : FixesLine parser s w path line (s', .ok (appliedText path note applied skipped))) :
    ∃ old edited files, s'.files = files ∧ Fixer.WritesEdits parser s.files
      (w.linter.resolve path) ((s.editsFor parser w path line).map .ofEdit) old edited files := by
  obtain ⟨c, hc, hhead⟩ := head?_appliedText path note applied skipped
  generalize appliedText path note applied skipped = answer at h hhead
  have hnot : ∀ {other}, answer.toList.head? = some other → other = 'S' ∨ other = '>' := by
    intro other hother
    obtain rfl := Option.some.inj (hhead.symm.trans hother)
    exact hc
  cases h with
  | clean find =>
    have hno : (noViolationsIn path).toList.head? = some 'N' :=
      head?_toList_append (head?_toList_append (by decide) path) _
    exact absurd (hnot hno) (by decide)
  | unfixable find nothing => exact absurd (hnot (by decide : _ = some 'A')) (by decide)
  | unwritten | kept | brokenOff =>
    exact absurd (hnot (head?_toList_append (by decide : _ = some 'E') _)) (by decide)
  | written find writes => exact ⟨_, _, _, rfl, writes⟩

theorem writes_of_appliedText {note : Option String} {applied skipped : Nat}
    (h : (s.call parser (.applyFix path line)).2 =
      .ok (appliedText path note applied skipped)) :
    ∃ w old, s.workspace? = some w ∧ Fixer.WritesEdits parser s.files (w.linter.resolve path)
      ((s.editsFor parser w path line).map .ofEdit) old
      (Edit.apply old (s.editsFor parser w path line))
      (s.call parser (.applyFix path line)).1.files := by
  cases hw : s.workspace? with
  | none =>
    obtain ⟨c, hc, hhead⟩ := head?_appliedText path note applied skipped
    rw [call, applyFix, hw] at h
    rw [← Except.ok.inj h] at hhead
    obtain rfl : 'E' = c := Option.some.inj hhead
    exact absurd hc (by decide)
  | some w =>
    have hcall : FixesLine parser s w path line (s.call parser (.applyFix path line)) :=
      fixesLine_applyFix hw
    generalize s.call parser (.applyFix path line) = r at h hcall ⊢
    obtain ⟨s', answer⟩ := r
    obtain rfl : answer = _ := h
    obtain ⟨old, edited, files, rfl, hwrites⟩ := hcall.of_appliedText
    have happly := hwrites.apply
    rw [EditRequest.apply_ofEdit] at happly
    obtain rfl := Except.ok.inj happly
    exact ⟨w, old, rfl, hwrites⟩

/-! ## Applying a fix -/

/-- What becomes of a file when the edits for a line are written to it: it keeps what is not
a star if the edits meet there what the document has, and a single edit must meet it. -/
theorem filter_of_writes (hp : parser.SpellsYields)
    (hfound : w.linter.found parser s.files (w.linter.resolve path) = some d)
    {language : Language} (hparsed : parser language d.source = .ok d.parsed) (line : Int)
    (old : Bytes) :
    let new := (Edit.apply old (s.editsFor parser w path line)).content
    ((∀ a ∈ Edit.used old (s.editsFor parser w path line), a.1.Alike old d.source) →
        new.filter (· != star) = old.filter (· != star)) ∧
      ∀ a, Edit.used old (s.editsFor parser w path line) = [a] →
        new.filter (· != star) = old.filter (· != star) → a.1.Alike old d.source := by
  have hstars : ∀ a ∈ Edit.used old (s.editsFor parser w path line), a.1.Stars d.source := by
    intro a ha
    have hmem := List.fst_mem_of_mem_zipIdx (Edit.mem_used ha).1
    exact (stars_editsFor hp hfound hparsed hmem).2
  constructor
  · intro halike
    exact Edit.filter_apply fun a ha => (hstars a ha).preserves_iff.2 (halike a ha)
  · intro a hused hsame
    have ha : a ∈ Edit.used old (s.editsFor parser w path line) := by simp [hused]
    exact (hstars a ha).preserves_iff.1 ((Edit.filter_apply_iff_of_used hused).1 hsame)

/-- **A fix puts in stars where the file is as it was linted.** Given a parser that finds
yields only where a `yield` is written, let any commands be done, and the fixes for a line
then be reported as applied. They are the fixes of the document that the linter finds for
the path, whose source its file had at some moment since when no command has made the linter
forget the path; each puts a star into that source. Just the file has changed, by their
edits. If no document was kept for the path, or one of what the file held, one star has been
put in for each edit that was applied. Otherwise the file is the same without its stars if it
held, in the range of each of them, what that source has there, stars aside; and if it was
just one, only then. -/
theorem applyFix_puts_in_stars (hp : parser.SpellsYields) (files : FileSystem)
    (cs : List Command) {note : Option String} {applied skipped : Nat}
    (h : ((after parser { files } cs).call parser (.applyFix path line)).2 =
      .ok (appliedText path note applied skipped)) :
    let s := after parser { files } cs
    let s' := (s.call parser (.applyFix path line)).1
    ∃ w d location old new,
      s.workspace? = some w ∧
      w.linter.found parser s.files (w.linter.resolve path) = some d ∧
      (∃ before since, cs = before ++ since ∧
        (after parser { files } before).files.read (w.linter.resolve path) = .ok d.source ∧
        Spares parser (w.linter.resolve path) (after parser { files } before) since) ∧
      (∀ e ∈ s.editsFor parser w path line, e.InBounds d.source.length ∧ e.Stars d.source) ∧
      s.files.locate? (w.linter.resolve path) = some location ∧
      FileSystem.Overwritten location old new s.files s'.files ∧
      new = (Edit.apply old (s.editsFor parser w path line)).content ∧
      ((∀ a ∈ Edit.used old (s.editsFor parser w path line), a.1.Alike old d.source) →
        new.filter (· != star) = old.filter (· != star)) ∧
      (w.linter.cache.get? (w.linter.resolve path) = none ∨ d.source = old →
        Starred old (Edit.apply old (s.editsFor parser w path line)).applied new) ∧
      ∀ a, Edit.used old (s.editsFor parser w path line) = [a] →
        new.filter (· != star) = old.filter (· != star) → a.1.Alike old d.source := by
  dsimp only
  generalize hs : after parser { files } cs = s at h ⊢
  obtain ⟨w, old, hw, hwrites⟩ := writes_of_appliedText h
  obtain ⟨location, hleads, hover⟩ := FileSystem.overwritten_of_write hwrites.read hwrites.write
  have hline : s.WritesLine parser w path line := ⟨_, _, _, hwrites⟩
  obtain ⟨d, hd⟩ := exists_found_of_editsFor hline.editsFor_ne_nil
  obtain ⟨before, since, hcs, hload, hsince⟩ :=
    exists_moment_of_found (not_keeps files) cs (by rw [hs]; exact hw) (by rw [hs]; exact hd)
  obtain ⟨language, -, hread, -, hparsed⟩ := Document.load?_eq_some_iff.1 hload
  obtain ⟨halike, hsingle⟩ := filter_of_writes hp hd hparsed line old
  have hstars : ∀ e ∈ s.editsFor parser w path line, e.InBounds d.source.length ∧
      e.Stars d.source := fun _ => stars_editsFor hp hd hparsed
  refine ⟨w, d, location, old, _, hw, hd, ⟨before, since, hcs, hread, hsince⟩, hstars, hleads,
    hover, rfl, halike, fun hcurrent => ?_, hsingle⟩
  have hsame : d.source = old := by
    rcases hcurrent with hnone | hsame
    · rw [Linter.found, hnone] at hd
      obtain ⟨-, -, hnow, -, -⟩ := Document.load?_eq_some_iff.1 hd
      exact Except.ok.inj (hnow.symm.trans hwrites.read)
    · exact hsame
  subst hsame
  exact Edit.starred_apply fun e he => (hstars e he).2

end Session

namespace NestedSaga

open DeepSaga (files holds_files)

/-- Other code, with the first and the last bytes of the saga. -/
def other : Bytes :=
  Utf8.encode <| "import\x7bcall\x7dfrom'typed-redux-saga';" ++
    "function*s()\x7btake(1234);call(f);put(g)\x7d"

theorem applyFix_listing {content : Bytes}
    (happly : Edit.apply content [⟨48, 73, "yield* call(yield* call())"⟩] =
      ⟨source true true, 1, 0⟩) :
    let s := Session.after parser { files := files (source false true) } (listing content)
    (s.call parser (.applyFix "a.js" 1)).1.files = files (source true true) ∧
      (s.call parser (.applyFix "a.js" 1)).2 = .ok (Session.appliedText "a.js" none 1 0) := by
  obtain ⟨w, hs, hrule, hresolve, hkept⟩ := after_listing content
  have hfound : w.linter.found parser (files content) "ws/a.js" = some (document false true) := by
    rw [Linter.found, hkept]
  rw [hs]
  obtain ⟨target, hcall⟩ := applyFix_source (s := ⟨files content, some w⟩) rfl hrule hresolve
    hfound (holds_files content).read happly ((holds_files content).write _)
  exact ⟨congrArg (·.1.files) hcall, congrArg Prod.snd hcall⟩

theorem apply_other : Edit.apply other [⟨48, 73, "yield* call(yield* call())"⟩] =
    ⟨source true true, 1, 0⟩ := by
  decide +kernel

end NestedSaga

open NestedSaga in
/-- Written from outside as it was, the saga gets its star. -/
theorem applyFix_nestedSaga_puts_in_stars :
    let s := Session.after parser { files := DeepSaga.files (source false true) }
      (listing (source false true))
    let s' := (s.call parser (.applyFix "a.js" 1)).1
    parser.SpellsYields ∧
      (s.call parser (.applyFix "a.js" 1)).2 = .ok (Session.appliedText "a.js" none 1 0) ∧
      ∃ old new, s.files.read "ws/a.js" = .ok old ∧ s'.files.read "ws/a.js" = .ok new ∧
        new.filter (· != star) = old.filter (· != star) := by
  intro s s'
  obtain ⟨w, hs, -, hresolve, hkept⟩ := after_listing (source false true)
  obtain ⟨hs', hanswer⟩ := applyFix_listing apply_source
  have hs : s = ⟨DeepSaga.files (source false true), some w⟩ := hs
  have hs' : s'.files = DeepSaga.files (source true true) := hs'
  have hbefore := DeepSaga.holds_files (source false true)
  have hafter := DeepSaga.holds_files (source true true)
  obtain ⟨w', d, location, old, new, hw, hd, -, -, hleads, hover, -, -, hsame, -⟩ :=
    Session.applyFix_puts_in_stars spellsYields _ _ hanswer
  obtain rfl : w = w' := Option.some.inj ((congrArg Session.workspace? hs).symm.trans hw)
  rw [hresolve] at hleads hsame hd
  rw [Linter.found, hkept] at hd
  obtain rfl := Option.some.inj hd
  have hleads : s.files.locate? "ws/a.js" = some location := hleads
  rw [hs] at hleads
  obtain rfl := Option.some.inj (hleads.symm.trans hbefore.leads)
  have hheld : s.files.content? ["ws", "a.js"] = some old := hover.held
  have hholds : s'.files.content? ["ws", "a.js"] = some new := hover.holds
  rw [hs, hbefore.holds] at hheld
  rw [hs', hafter.holds] at hholds
  obtain rfl := Option.some.inj hheld
  obtain rfl := Option.some.inj hholds
  exact ⟨spellsYields, hanswer, _, _, by rw [hs]; exact hbefore.read,
    by rw [hs']; exact hafter.read, (hsame (.inr rfl)).filter_eq⟩

open NestedSaga in
/-- Written from outside with other code, the saga gets the fix in the place of that. -/
theorem overwritten_nestedSaga :
    let s := Session.after parser { files := DeepSaga.files (source false true) } (listing other)
    let s' := (s.call parser (.applyFix "a.js" 1)).1
    parser.SpellsYields ∧ Utf8.Spells other ∧
      (s.call parser (.applyFix "a.js" 1)).2 = .ok (Session.appliedText "a.js" none 1 0) ∧
      s.files.read "ws/a.js" = .ok other ∧ s'.files.read "ws/a.js" = .ok (source true true) ∧
      (source true true).filter (· != star) ≠ other.filter (· != star) := by
  intro s s'
  obtain ⟨w, hs, -⟩ := after_listing other
  obtain ⟨hs', hanswer⟩ := applyFix_listing apply_other
  have hs : s = ⟨DeepSaga.files other, some w⟩ := hs
  have hs' : s'.files = DeepSaga.files (source true true) := hs'
  refine ⟨spellsYields, Utf8.spells_encode _, hanswer, ?_, ?_, ?_⟩
  · rw [hs]
    exact (DeepSaga.holds_files other).read
  · rw [hs']
    exact (DeepSaga.holds_files (source true true)).read
  · decide +kernel

end YieldLint
