/-
Which tools fail, and when.

Where a linter looks at a file, a parser that refuses it makes no difference but that
nothing is found there. A fixer parses too: each pass parses the source it starts from and
the one that it makes (`Ends`), and edits are checked by parsing what they make. Nothing
stands between such a refusal and the caller, as a tool that fixes turns failures of the
file system alone into answers. So `applyFix` and `fixAll` fail when the fixer is refused,
and no tool fails otherwise (`call_eq_error_iff`); the session is then left as it is after
the look at the file. Both do fail: `refused_nestedSaga`.
-/
import YieldLint.Proofs.StaleFixes

namespace YieldLint

theorem bind_eq_error_iff {ε α β : Type} {x : Except ε α} {f : α → Except ε β} {e : ε} :
    x >>= f = .error e ↔ x = .error e ∨ ∃ a, x = .ok a ∧ f a = .error e := by
  cases x with
  | error e' => simp [bind, Except.bind]
  | ok a => simp [bind, Except.bind]

/-! ## A refusal -/

namespace Parser

/-- Does not parse a source, but fails. -/
def Refuses (parser : Parser) (language : Language) (source : Bytes) (e : Failure) : Prop :=
  ∃ m, parser language source = .error m ∧ e = .parserFailed m

variable {parser : Parser} {language : Language} {source : Bytes} {e : Failure}

theorem parse_eq_error_iff :
    parser.parse language source = .error e ↔ parser.Refuses language source e := by
  rw [parse, Refuses]
  cases parser language source with
  | error m => simp [Except.mapError, eq_comm]
  | ok parsed => simp [Except.mapError]

theorem Refuses.isFileError (h : parser.Refuses language source e) : e.isFileError = false := by
  obtain ⟨m, -, rfl⟩ := h
  rfl

theorem NeverRefuses.not_refuses (hp : parser.NeverRefuses) :
    ¬parser.Refuses language source e := by
  rintro ⟨m, hm, -⟩
  obtain ⟨parsed, hparsed⟩ := hp language source
  cases hm.symm.trans hparsed

end Parser

namespace FileSystem

variable {fs : FileSystem} {path : String} {e : Failure}

theorem isFileError_of_read (h : fs.read path = .error e) : e.isFileError = true := by
  rw [read_eq] at h
  split at h
  · cases h
    rfl
  split at h
  · cases h
    rfl
  split at h
  · cases h
  · cases h
    rfl

theorem isFileError_of_writable (h : fs.writable path = .error e) : e.isFileError = true := by
  rw [writable_eq] at h
  split at h
  · cases h
    rfl
  split at h
  · cases h
    rfl
  split at h
  · cases h
  · cases h
    rfl

theorem isFileError_of_write {fs' : FileSystem} {content : Bytes}
    (h : (FileProgram.write path content).exec fs = (.error e, fs')) : e.isFileError = true := by
  rw [exec_write] at h
  split at h
  · rename_i hopens
    cases h
    exact isFileError_of_writable hopens
  · split at h
    · cases h
    · cases h
      rfl

end FileSystem

/-! ## The fixer -/

namespace Fixer

variable {parser : Parser} {rule : Rule} {language : Language} {fs : FileSystem} {l : Linter}
  {path : String} {e : Failure}

/-- A check for what edits break fails if the parser refuses what they make, or finds an
error there and refuses what they were made in. -/
theorem breaks_eq_error_iff {old new : Bytes} :
    breaks parser language old new = .error e ↔ parser.Refuses language new e ∨
      parser.FindsError language new ∧ parser.Refuses language old e := by
  rw [breaks, bind_eq_error_iff, Parser.parse_eq_error_iff]
  refine or_congr_right ?_
  constructor
  · rintro ⟨parsed, hparsed, h⟩
    split at h
    · rename_i herror
      rw [bind_eq_error_iff, Parser.parse_eq_error_iff] at h
      rcases h with h | ⟨_, _, h⟩
      · exact ⟨⟨parsed, Parser.parse_eq_ok_iff.1 hparsed, herror⟩, h⟩
      · cases h
    · cases h
  · rintro ⟨⟨parsed, hparsed, herror⟩, h⟩
    refine ⟨parsed, Parser.parse_eq_ok_iff.2 hparsed, ?_⟩
    rw [if_pos herror, bind_eq_error_iff, Parser.parse_eq_error_iff]
    exact .inl h

theorem exists_refuses_of_breaks {old new : Bytes}
    (h : breaks parser language old new = .error e) :
    ∃ source, parser.Refuses language source e := by
  rcases breaks_eq_error_iff.1 h with h | ⟨-, h⟩
  · exact ⟨new, h⟩
  · exact ⟨old, h⟩

section Ends

variable (parser rule language)

/-- A run with so many passes left over a source that the parser ends, and how it fails. -/
inductive Ends : Nat → Bytes → Failure → Prop
  | unread {left : Nat} {source : Bytes} {e : Failure}
      (refused : parser.Refuses language source e) : Ends (left + 1) source e
  | unchecked {left : Nat} {source : Bytes} {vs : List Violation} {edited : Edited} {e : Failure}
      (lint : rule.lint parser language source "" = .ok vs)
      (apply : Edit.apply source (editsOf vs) = edited) (taken : edited.applied ≠ 0)
      (refused : parser.Refuses language edited.content e) : Ends (left + 1) source e
  | next {left : Nat} {source : Bytes} {vs : List Violation} {edited : Edited} {e : Failure}
      (lint : rule.lint parser language source "" = .ok vs)
      (apply : Edit.apply source (editsOf vs) = edited) (taken : edited.applied ≠ 0)
      (holds : Fixer.breaks parser language source edited.content = .ok false)
      (run : Ends left edited.content e) : Ends (left + 1) source e

end Ends

theorem lint_eq_error_iff {source : Bytes} {file : String} :
    rule.lint parser language source file = .error e ↔ parser.Refuses language source e := by
  rw [Rule.lint, bind_eq_error_iff, Parser.parse_eq_error_iff]
  refine or_iff_left ?_
  rintro ⟨_, _, h⟩
  cases h

theorem passes_of_ends {left : Nat} {source : Bytes}
    (h : Ends parser rule language left source e) :
    passes parser rule language left source = .error e := by
  induction h with
  | unread refused =>
    rw [passes, bind_eq_error_iff]
    exact .inl (lint_eq_error_iff.2 refused)
  | @unchecked left source vs edited e lint apply taken refused =>
    have dirty := editsOf_ne_nil apply taken
    have hbreaks : breaks parser language source edited.content = .error e :=
      breaks_eq_error_iff.2 (.inl refused)
    simp [passes, lint, dirty, apply, taken, hbreaks, bind, Except.bind]
  | next lint apply taken holds _ ih =>
    have dirty := editsOf_ne_nil apply taken
    simp [passes, lint, dirty, apply, taken, holds, ih, bind, Except.bind]

theorem ends_of_passes {left : Nat} : ∀ {source : Bytes},
    passes parser rule language left source = .error e →
      Ends parser rule language left source e := by
  induction left with
  | zero =>
    intro source h
    cases h
  | succ left ih =>
    intro source h
    rw [passes, bind_eq_error_iff, lint_eq_error_iff] at h
    rcases h with h | ⟨vs, lint, h⟩
    · exact .unread h
    obtain ⟨parsed, hparsed, -⟩ := lint_eq_ok_iff.1 lint
    dsimp only at h
    split at h
    · cases h
    split at h
    · cases h
    rename_i taken
    rw [bind_eq_error_iff, breaks_eq_error_iff] at h
    rcases h with (h | ⟨-, m, hm, -⟩) | ⟨broken, hbreaks, h⟩
    · exact .unchecked lint rfl taken h
    · cases hm.symm.trans hparsed
    cases broken with
    | true => cases h
    | false =>
      simp only [Bool.false_eq_true, if_false] at h
      rw [bind_eq_error_iff] at h
      rcases h with h | ⟨_, _, h⟩
      · exact .next lint rfl taken hbreaks (ih h)
      · cases h

/-- Passes fail just when the parser ends their run. -/
theorem passes_eq_error_iff {left : Nat} {source : Bytes} :
    passes parser rule language left source = .error e ↔
      Ends parser rule language left source e :=
  ⟨ends_of_passes, passes_of_ends⟩

theorem Ends.exists_refuses {left : Nat} {source : Bytes}
    (h : Ends parser rule language left source e) : ∃ new, parser.Refuses language new e := by
  induction h with
  | unread refused => exact ⟨_, refused⟩
  | unchecked _ _ _ refused => exact ⟨_, refused⟩
  | next _ _ _ _ _ ih => exact ih

/-- Applying edits fails otherwise than on the files just when what they break cannot be
checked, and then leaves the files alone. -/
theorem exec_applying_eq_error_iff {fs' : FileSystem} {edits : List Edit} :
    (applying parser path (edits.map .ofEdit) false).exec fs = (.error e, fs') ∧
        e.isFileError = false ↔
      fs' = fs ∧ ∃ old, fs.read path = .ok old ∧ (Edit.apply old edits).applied ≠ 0 ∧
        breaks parser ((Language.ofPath? path).getD .javascript) old
          (Edit.apply old edits).content = .error e := by
  rw [applying]
  constructor
  · rintro ⟨h, hfile⟩
    rcases Program.exec_bind_eq_error_iff.1 h with h | ⟨old, _, hread, h⟩
    · cases (FileSystem.isFileError_of_read (congrArg Prod.fst h)).symm.trans hfile
    obtain ⟨hold, rfl⟩ := Prod.mk.inj hread
    rw [EditRequest.apply_ofEdit, Program.exec_bind_of_ok (Program.exec_lift _ _)] at h
    dsimp only at h
    split at h
    · cases h
    rename_i taken
    rcases Program.exec_bind_eq_error_iff.1 h with h | ⟨broken, _, hbreaks, h⟩
    · obtain ⟨hbreaks, rfl⟩ := Prod.mk.inj h
      exact ⟨rfl, old, hold, taken, hbreaks⟩
    split at h
    · cases h
    rw [if_neg Bool.false_ne_true] at h
    rcases Program.exec_bind_eq_error_iff.1 h with h | ⟨_, _, _, h⟩
    · cases (FileSystem.isFileError_of_write h).symm.trans hfile
    · cases h
  · rintro ⟨rfl, old, hread, taken, hbreaks⟩
    constructor
    · rw [Program.exec_bind_of_ok (by rw [FileProgram.exec_read, hread]),
        EditRequest.apply_ofEdit, Program.exec_bind_of_ok (Program.exec_lift _ _)]
      dsimp only
      rw [if_neg taken, Program.exec_bind_of_error (by rw [Program.exec_lift, hbreaks])]
    · obtain ⟨_, hrefuses⟩ := exists_refuses_of_breaks hbreaks
      exact hrefuses.isFileError

/-- Fixing a file fails otherwise than on the files just when the parser ends the passes, and
then leaves the files alone. -/
theorem exec_fixing_eq_error_iff {fs' : FileSystem} {dryRun : Bool} :
    (fixing parser l path dryRun).exec fs = (.error e, fs') ∧ e.isFileError = false ↔
      fs' = fs ∧ ∃ language old, Language.ofPath? (l.resolve path) = some language ∧
        fs.read (l.resolve path) = .ok old ∧
        Ends parser l.rule language maxPasses old e := by
  constructor
  · rintro ⟨h, hfile⟩
    unfold fixing at h
    dsimp only at h
    split at h
    · cases h
    rename_i language hlanguage
    rw [Program.exec_bind_of_ok (FileProgram.exec_hasPath _ fs)] at h
    split at h
    · cases h
    rcases Program.exec_bind_eq_error_iff.1 h with h | ⟨old, _, hread, h⟩
    · cases (FileSystem.isFileError_of_read (congrArg Prod.fst h)).symm.trans hfile
    obtain ⟨hold, rfl⟩ := Prod.mk.inj hread
    rcases Program.exec_bind_eq_error_iff.1 h with h | ⟨fixed, _, hpasses, h⟩
    · obtain ⟨hpasses, rfl⟩ := Prod.mk.inj h
      exact ⟨rfl, language, old, hlanguage, hold, passes_eq_error_iff.1 hpasses⟩
    obtain ⟨-, rfl⟩ := Prod.mk.inj hpasses
    split at h
    · cases h
    split at h
    · cases h
    rcases Program.exec_bind_eq_error_iff.1 h with h | ⟨_, _, _, h⟩
    · cases (FileSystem.isFileError_of_write h).symm.trans hfile
    · cases h
  · rintro ⟨rfl, language, old, hlanguage, hread, hends⟩
    have hpasses : fixSource parser l.rule language old = .error e := passes_eq_error_iff.2 hends
    obtain ⟨_, hrefuses⟩ := hends.exists_refuses
    refine ⟨?_, hrefuses.isFileError⟩
    unfold fixing
    dsimp only
    rw [hlanguage]
    dsimp only
    rw [Program.exec_bind_of_ok (FileProgram.exec_hasPath _ _), FileSystem.hasPath_of_read hread,
      if_neg (by simp), Program.exec_bind_of_ok (by rw [FileProgram.exec_read, hread]),
      Program.exec_bind_of_error (by rw [Program.exec_lift, hpasses])]

end Fixer

/-! ## Tools -/

namespace Session

variable (parser : Parser) (s : Session)

/-- A call in which the fixer is refused, the session that it leaves, and its failure. -/
inductive Refused : Tool → Session → Failure → Prop
  | applying {w : Workspace} {path : String} {line : Int} {old : Bytes} {e : Failure}
      (loaded : s.workspace? = some w)
      (read : s.files.read (w.linter.resolve path) = .ok old)
      (taken : (Edit.apply old (s.editsFor parser w path line)).applied ≠ 0)
      (refused : Fixer.breaks parser
        ((Language.ofPath? (w.linter.resolve path)).getD .javascript) old
        (Edit.apply old (s.editsFor parser w path line)).content = .error e) :
      Refused (.applyFix path line) (s.withWorkspace (s.looking parser w path)) e
  | fixing {w : Workspace} {path : String} {dryRun : Bool} {language : Language} {old : Bytes}
      {e : Failure} (loaded : s.workspace? = some w) (dirty : s.reported parser w path ≠ [])
      (known : Language.ofPath? (w.linter.resolve path) = some language)
      (read : s.files.read (w.linter.resolve path) = .ok old)
      (ends : Fixer.Ends parser w.linter.rule language Fixer.maxPasses old e) :
      Refused (.fixAll path dryRun) (s.withWorkspace (s.looking parser w path)) e

variable {parser s} {s' : Session} {w : Workspace} {path : String} {line : Int} {e : Failure}

theorem Refused.of_applyFix (hw : s.workspace? = some w)
    (h : s.applyFix parser path line = (s', .error e)) :
    Refused parser s (.applyFix path line) s' e := by
  have hcall : FixesLine parser s w path line (s.applyFix parser path line) :=
    fixesLine_applyFix hw
  rw [h] at hcall
  cases hcall with
  | refused fixable apply file =>
    obtain ⟨-, old, read, taken, refused⟩ := Fixer.exec_applying_eq_error_iff.1 ⟨apply, file⟩
    exact .applying hw read taken refused

theorem Refused.of_fixAll {dryRun : Bool} (hw : s.workspace? = some w)
    (h : s.fixAll parser path dryRun = (s', .error e)) :
    Refused parser s (.fixAll path dryRun) s' e := by
  have hcall : FixesFile parser s w path dryRun (s.fixAll parser path dryRun) :=
    fixesFile_fixAll hw
  rw [h] at hcall
  cases hcall with
  | refused dirty fix file =>
    obtain ⟨-, language, old, known, read, ends⟩ :=
      Fixer.exec_fixing_eq_error_iff.1 ⟨fix, file⟩
    rw [looking, Linter.resolve_lintFile] at known read
    rw [looking, Linter.rule_lintFile] at ends
    exact .fixing hw dirty known read ends

theorem Refused.call_eq {t : Tool} (h : Refused parser s t s' e) :
    s.call parser t = (s', .error e) := by
  cases h with
  | @applying w path line old e loaded read taken refused =>
    obtain ⟨happly, hfile⟩ :=
      Fixer.exec_applying_eq_error_iff.2 ⟨rfl, old, read, taken, refused⟩
    have hsome : s.editsFor parser w path line ≠ [] := by
      intro hnone
      rw [hnone] at taken
      exact taken (by simp [Edit.apply, Edit.fromBack])
    have hcall : FixesLine parser s w path line (s.call parser (.applyFix path line)) :=
      fixesLine_applyFix loaded
    generalize s.call parser (.applyFix path line) = r at hcall ⊢
    cases hcall with
    | clean find => exact absurd (editsFor_of_none find) hsome
    | unfixable find nothing => exact absurd ((editsFor_of_some find).trans nothing) hsome
    | unwritten _ apply file =>
      cases apply.symm.trans happly
      cases file.symm.trans hfile
    | refused _ apply _ =>
      cases apply.symm.trans happly
      rfl
    | kept _ apply _ => cases apply.symm.trans happly
    | written _ writes =>
      obtain ⟨o, ho, -⟩ := Fixer.exec_applying_of_writes writes
      cases ho.symm.trans happly
    | brokenOff makes breaks =>
      have hbroken := (Fixer.exec_applying_of_breaksOff makes breaks).symm.trans happly
      obtain rfl : _ = e := Except.error.inj (congrArg Prod.fst hbroken)
      cases hfile
  | @fixing w path dryRun language old e loaded dirty known read ends =>
    have hlooked : Linter.Looked parser s.files w.linter (s.looking parser w path).linter :=
      .lintFile parser s.files w.linter path
    have hresolve : (s.looking parser w path).linter.resolve path = w.linter.resolve path :=
      Linter.resolve_lintFile parser s.files w.linter path path
    rw [← hresolve] at known read
    rw [← hlooked.rule] at ends
    have hfix : ∀ dry, (Fixer.fixing parser (s.looking parser w path).linter path dry).exec
        s.files = (.error e, s.files) ∧ e.isFileError = false := fun _ =>
      Fixer.exec_fixing_eq_error_iff.2 ⟨rfl, language, old, known, read, ends⟩
    have hcall : FixesFile parser s w path dryRun (s.call parser (.fixAll path dryRun)) :=
      fixesFile_fixAll loaded
    generalize s.call parser (.fixAll path dryRun) = r at hcall ⊢
    cases hcall with
    | clean nothing => exact absurd nothing dirty
    | unwritten _ fix file =>
      cases fix.symm.trans (hfix dryRun).1
      cases file.symm.trans (hfix dryRun).2
    | refused _ fix _ =>
      cases fix.symm.trans (hfix dryRun).1
      rfl
    | previewed _ _ fix => cases (Fixer.fixFile_eq_ok_iff.1 fix).symm.trans (hfix true).1
    | fixed _ _ fix => cases (Fixer.fixFile_eq_ok_iff.1 fix).symm.trans (hfix false).1
    | brokenOff _ _ makes breaks =>
      rw [← hlooked.rule, ← hresolve] at makes
      rw [← hresolve] at breaks
      have hbroken := (Fixer.exec_fixing_of_breaksOff makes breaks).symm.trans (hfix false).1
      obtain rfl : _ = e := Except.error.inj (congrArg Prod.fst hbroken)
      cases (hfix false).2

theorem call_eq_error_iff {t : Tool} :
    s.call parser t = (s', .error e) ↔ Refused parser s t s' e := by
  constructor
  · intro h
    cases t with
    | applyFix path line =>
      cases hw : s.workspace? with
      | none => simp [call, applyFix, hw] at h
      | some w => exact .of_applyFix hw h
    | fixAll path dryRun =>
      cases hw : s.workspace? with
      | none => simp [call, fixAll, hw] at h
      | some w => exact .of_fixAll hw h
    | _ => cases congrArg Prod.snd h
  · exact Refused.call_eq

/-- A tool that fails has looked at a file, and done nothing else. -/
theorem Refused.looks {t : Tool} (h : Refused parser s t s' e) : Looks parser s s' := by
  cases h with
  | applying loaded => exact .inr ⟨_, _, loaded, .lintFile parser s.files _ _, rfl⟩
  | fixing loaded => exact .inr ⟨_, _, loaded, .lintFile parser s.files _ _, rfl⟩

theorem Refused.exists_refuses {t : Tool} (h : Refused parser s t s' e) :
    ∃ language source, parser.Refuses language source e := by
  cases h with
  | applying _ _ _ refused => exact ⟨_, Fixer.exists_refuses_of_breaks refused⟩
  | fixing _ _ _ _ ends => exact ⟨_, ends.exists_refuses⟩

/-- **Tools answer, unless the fixer is refused.** In whatever state a session is, a tool
fails just when it applies fixes to a file or fixes all of it, the parser refuses what the
fixer then has to parse, and nothing else has ended the call before. It fails as the parser
does, and has looked at the file and done nothing else: the files and the statuses are as
they were. A tool answers whenever the parser refuses nothing. -/
theorem tools_answer_unless_refused (parser : Parser) (s : Session) (t : Tool) :
    (∀ s' e, s.call parser t = (s', .error e) ↔ Refused parser s t s' e) ∧
      (∀ s' e, s.call parser t = (s', .error e) → Looks parser s s' ∧
        ∃ language source, parser.Refuses language source e) ∧
      (parser.NeverRefuses → ∃ text, (s.call parser t).2 = .ok text) := by
  refine ⟨fun _ _ => call_eq_error_iff, ?_, ?_⟩
  · intro s' e h
    have hrefused := call_eq_error_iff.1 h
    exact ⟨hrefused.looks, hrefused.exists_refuses⟩
  · intro hp
    rcases hcall : s.call parser t with ⟨s', answer⟩
    cases answer with
    | ok text => exact ⟨text, rfl⟩
    | error e =>
      obtain ⟨language, source, hrefuses⟩ := (call_eq_error_iff.1 hcall).exists_refuses
      exact absurd hrefuses hp.not_refuses

end Session

namespace NestedSaga

open DeepSaga (files holds_files)

/-- The saga with a line break behind it, which its parser does not know. -/
def longer (outer : Bool) : Bytes := source outer true ++ Utf8.encode "\n"

theorem refuses_longer (language : Language) : ∀ outer,
    parser.Refuses language (longer outer) (.parserFailed "unknown source") := by
  have hunknown : ∀ outer, longer outer ≠ source false false ∧
      longer outer ≠ source false true ∧ longer outer ≠ source true true := by decide +kernel
  intro outer
  obtain ⟨h00, h01, h11⟩ := hunknown outer
  refine ⟨"unknown source", ?_, rfl⟩
  rw [parser, if_neg h00, if_neg h01, if_neg h11]

end NestedSaga

open NestedSaga in
/-- The saga is listed, and then written with a line break more, from outside: to apply a fix
fails, and so does to fix all of the file. -/
theorem refused_nestedSaga :
    let s := Session.after parser { files := DeepSaga.files (source false true) }
      (listing (longer false))
    (s.call parser (.applyFix "a.js" 1)).2 = .error (.parserFailed "unknown source") ∧
      (s.call parser (.fixAll "a.js" false)).2 = .error (.parserFailed "unknown source") := by
  intro s
  obtain ⟨w, hs, hrule, hresolve, hkept⟩ := after_listing (longer false)
  have hloaded : s.workspace? = some w := congrArg Session.workspace? hs
  have hread : s.files.read (w.linter.resolve "a.js") = .ok (longer false) := by
    rw [hresolve, congrArg Session.files hs]
    exact (DeepSaga.holds_files (longer false)).read
  have hfound : w.linter.found parser s.files "ws/a.js" = some (document false true) := by
    rw [Linter.found, hkept]
  obtain ⟨⟨target, hfind, -⟩, hfor⟩ := find?_source hrule hresolve hfound
  have happly : Edit.apply (longer false) (s.editsFor parser w "a.js" 1) =
      ⟨longer true, 1, 0⟩ := by
    rw [hfor]
    decide +kernel
  have hdirty : s.reported parser w "a.js" ≠ [] := by
    intro hclean
    rw [hclean] at hfind
    cases hfind
  have hknown : Language.ofPath? (w.linter.resolve "a.js") = some .javascript := by
    rw [hresolve, ofPath?_ws]
  have hone := Session.Refused.applying hloaded hread (by rw [happly]; decide)
    (Fixer.breaks_eq_error_iff.2 (.inl (by rw [happly]; exact refuses_longer _ true)))
  have hall : Session.Refused parser s (.fixAll "a.js" false) _ _ :=
    .fixing hloaded hdirty hknown hread (.unread (refuses_longer _ false))
  exact ⟨congrArg Prod.snd hone.call_eq, congrArg Prod.snd hall.call_eq⟩

end YieldLint
