/-
Which runs leave nothing to fix.

Each pass settles some violations (`Settles`), and with edits that nest and are only
moved by a pass (`Carries`), just the innermost ones. So a run that ends by itself
leaves no violation but those whose edits do not fit the source, and one that uses up
its passes leaves none if and only if there was no deeper nesting than it had passes
(`editsOf_eq_nil_iff`). The saga of eleven yields takes eleven passes, and is not done
after ten.
-/
import YieldLint.Proofs.Rest

namespace YieldLint

namespace Edit

theorem not_inBounds_of_applied_eq_zero {content : Bytes} {edits : List Edit}
    (h : (apply content edits).applied = 0) : ∀ e ∈ edits, ¬e.InBounds content.length := by
  intro e he
  rw [apply_eq, List.length_eq_zero_iff] at h
  rw [← List.zipIdx_map_fst 0 edits] at he
  obtain ⟨a, ha, rfl⟩ := List.mem_map.1 he
  rcases conflict_of_not_mem_used ha (by rw [h]; simp) with hout | ⟨b, hb, -⟩
  · exact hout
  · rw [h] at hb
    simp at hb

end Edit

namespace Fixer

/-! ## Passes that settle violations -/

section Passes

variable (parser : Parser) (rule : Rule) (language : Language)

/-- Holds of every pass that applies edits, among so many passes over a source. -/
def EachPass (P : Bytes → List Violation → Prop) : Nat → Bytes → Prop
  | 0, _ => True
  | left + 1, source => ∀ vs, rule.lint parser language source "" = .ok vs →
      (Edit.apply source (editsOf vs)).applied ≠ 0 →
      P source vs ∧ EachPass P left (Edit.apply source (editsOf vs)).content

/-- Applying the edits leaves a source without errors, and as many violations in it as
there were, less the edits applied. -/
def Settles (source : Bytes) (vs : List Violation) : Prop :=
  let edited := Edit.apply source (editsOf vs)
  ∃ parsed after, parser language edited.content = .ok parsed ∧ parsed.hasError = false ∧
    rule.lint parser language edited.content "" = .ok after ∧
    after.length + edited.applied = vs.length

/-- Applying the edits leaves the violations whose edits were left out, in order, moved
along with the bytes that they cover. -/
def Carries (source : Bytes) (vs : List Violation) : Prop :=
  let edited := Edit.apply source (editsOf vs)
  ∃ after move, rule.lint parser language edited.content "" = .ok after ∧ StrictMono move ∧
    Edit.Moved move (Edit.leftOut source (editsOf vs)) (editsOf after) ∧
    ∀ e ∈ editsOf after, e.InBounds edited.content.length

end Passes

variable {parser : Parser} {rule : Rule} {language : Language}

theorem breaks_of_settles {source : Bytes} {vs : List Violation}
    (h : Settles parser rule language source vs) :
    breaks parser language source (Edit.apply source (editsOf vs)).content = .ok false := by
  obtain ⟨parsed, after, hparsed, herror, -⟩ := h
  exact breaks_of_parsed hparsed herror

theorem exists_run_of_settles : ∀ {left : Nat} {source : Bytes} {vs : List Violation},
    rule.lint parser language source "" = .ok vs →
    EachPass parser rule language (Settles parser rule language) left source →
    ∃ fixed after, Run parser rule language left source fixed ∧
      rule.lint parser language fixed.source "" = .ok after ∧
      after.length + fixed.applied = vs.length ∧
      (fixed.passes < left → ∀ e ∈ editsOf after, ¬e.InBounds fixed.source.length)
  | 0, source, vs, hlint, _ => ⟨_, vs, .exhausted, hlint, rfl, fun h => absurd h (Nat.lt_irrefl 0)⟩
  | left + 1, source, vs, hlint, hsettles => by
    by_cases hclean : editsOf vs = []
    · exact ⟨_, vs, .settled hlint hclean, hlint, rfl, by simp [hclean]⟩
    by_cases hidle : (Edit.apply source (editsOf vs)).applied = 0
    · exact ⟨_, vs, .idle hlint hclean hidle, hlint, rfl,
        fun _ => Edit.not_inBounds_of_applied_eq_zero hidle⟩
    obtain ⟨hpass, hrest⟩ := hsettles vs hlint hidle
    have hbreaks := breaks_of_settles hpass
    obtain ⟨-, between, -, -, hbetween, hcount⟩ := hpass
    obtain ⟨fixed, after, run, hafter, hleft, hfit⟩ := exists_run_of_settles hbetween hrest
    refine ⟨_, after, .next hlint rfl hidle hbreaks run, hafter, ?_, fun h => ?_⟩
    · show after.length + ((Edit.apply source (editsOf vs)).applied + fixed.applied) = vs.length
      rw [← hcount, ← hleft]
      omega
    · exact hfit (Nat.lt_of_succ_lt_succ h)

/-- A run over edits that nest leaves none if and only if they nest no deeper than it has
passes. -/
theorem editsOf_eq_nil_iff {left : Nat} {source : Bytes} {fixed : FixedSource}
    (run : Run parser rule language left source fixed) :
    ∀ {vs after : List Violation}, rule.lint parser language source "" = .ok vs →
      rule.lint parser language fixed.source "" = .ok after →
      EachPass parser rule language (Settles parser rule language) left source →
      EachPass parser rule language (Carries parser rule language) left source →
      (∀ e ∈ editsOf vs, e.InBounds source.length) → Edit.Nested (editsOf vs) →
      (editsOf after = [] ↔ ∀ e, ¬Edit.Deep (editsOf vs) left e) := by
  induction run with
  | exhausted =>
    intro vs after hlint hafter _ _ _ _
    obtain rfl : vs = after := Except.ok.inj (hlint.symm.trans hafter)
    exact List.eq_nil_iff_forall_not_mem
  | settled lint clean =>
    intro vs after hlint hafter _ _ _ _
    obtain rfl := Except.ok.inj (lint.symm.trans hlint)
    obtain rfl := Except.ok.inj (hlint.symm.trans hafter)
    refine iff_of_true clean fun e hdeep => ?_
    have hmem := hdeep.mem
    rw [clean] at hmem
    simp at hmem
  | idle lint dirty skipped =>
    intro vs after hlint _ _ _ hin _
    obtain rfl := Except.ok.inj (lint.symm.trans hlint)
    obtain ⟨e, he⟩ := List.exists_mem_of_ne_nil _ dirty
    exact absurd (hin e he) (Edit.not_inBounds_of_applied_eq_zero skipped e he)
  | broken lint apply taken breaks =>
    intro vs after hlint _ hsettles _ _ _
    obtain rfl := Except.ok.inj (lint.symm.trans hlint)
    subst apply
    have hfine := breaks_of_settles (hsettles _ lint taken).1
    rw [breaks] at hfine
    cases hfine
  | @next left source vs edited rest lint apply taken _ _ ih =>
    intro vs' after hlint hafter hsettles hcarries hin hnested
    obtain rfl := Except.ok.inj (lint.symm.trans hlint)
    subst apply
    obtain ⟨⟨between, move, hbetween, hmove, hmoved, hfit⟩, hcarries⟩ := hcarries vs lint taken
    have hnext : Edit.Nested (Edit.leftOut source (editsOf vs)) :=
      hnested.sublist Edit.leftOut_sublist
    have hiff := ih hbetween hafter (hsettles vs lint taken).2 hcarries hfit
      (Edit.Nested.moved hmove hmoved hnext)
    rw [hiff, ← not_exists, ← not_exists, Edit.exists_deep_moved hmove hmoved,
      Edit.exists_deep_leftOut hnested hin]

/-- **Ten passes settle what nests ten deep.** Let every pass over a source that applies
edits leave a source without errors, and as many violations in it as before less the
edits applied. Then fixing leaves as many violations as the source has, less the edits
applied. If fewer than ten passes were made, no edit of those that are left fits the
source, and fixing it again changes nothing. If the edits of the source fit it and nest,
and each pass only moves those that it leaves out, then no fix is left if and only if
no edit has ten others in it, one inside the other; and then fixing again makes no
pass. -/
theorem fixSource_settles_nesting {source : Bytes} {vs : List Violation}
    (hlint : rule.lint parser language source "" = .ok vs)
    (hsettles : EachPass parser rule language (Settles parser rule language) 10 source) :
    ∃ fixed after, fixSource parser rule language source = .ok fixed ∧
      rule.lint parser language fixed.source "" = .ok after ∧
      after.length + fixed.applied = vs.length ∧
      (fixed.passes < 10 → (∀ e ∈ editsOf after, ¬e.InBounds fixed.source.length) ∧
        ∃ again, fixSource parser rule language fixed.source = .ok again ∧
          again.source = fixed.source ∧ again.applied = 0) ∧
      ((∀ e ∈ editsOf vs, e.InBounds source.length) → Edit.Nested (editsOf vs) →
        EachPass parser rule language (Carries parser rule language) 10 source →
        (editsOf after = [] ↔ ∀ e, ¬Edit.Deep (editsOf vs) 10 e) ∧
        ((∀ e, ¬Edit.Deep (editsOf vs) 10 e) →
          fixSource parser rule language fixed.source = .ok ⟨fixed.source, 0, 0⟩)) := by
  obtain ⟨fixed, after, run, hafter, hcount, hfit⟩ := exists_run_of_settles hlint hsettles
  refine ⟨fixed, after, passes_of_run run, hafter, hcount, fun h => ⟨hfit h, ?_⟩,
    fun hin hnested hcarries => ?_⟩
  · obtain ⟨n, hn⟩ := run.rests h
    exact ⟨⟨fixed.source, 0, n⟩, passes_of_run (hn 9), rfl, rfl⟩
  · have hiff := editsOf_eq_nil_iff run hlint hafter hsettles hcarries hin hnested
    exact ⟨hiff, fun h => passes_of_run (.settled hafter (hiff.2 h))⟩

end Fixer

/-! ## The saga of eleven yields -/

namespace DeepSaga

theorem length_violations {k : Nat} (hk : k < 12) : (violations k).length = 11 - k := by
  have hlength := congrArg List.length (range_violations k hk)
  rw [violations, Fixer.editsOf_check] at hlength
  rw [violations, Rule.check]
  simpa using hlength

theorem editsOf_violations_eleven : Fixer.editsOf (violations 11) = [] := by
  simpa using range_violations 11 (by decide)

theorem inBounds_violations {k : Nat} (hk : k ≤ 11) :
    ∀ e ∈ Fixer.editsOf (violations k), e.InBounds (source (stars k)).length := fun _ he =>
  (Fixer.stars_editsOf (spellsYields (Nat.le_refl 11)) (lint_source (Nat.le_refl 11) hk) he).1

theorem nested_violations {k : Nat} (hk : k ≤ 11) :
    Edit.Nested (Fixer.editsOf (violations k)) := by
  have hplaces : ((List.range (11 - k)).map (place k)).Pairwise
      fun p q => Edit.Nest ⟨p.1, p.2, ""⟩ ⟨q.1, q.2, ""⟩ := by
    rw [List.pairwise_map]
    refine List.pairwise_lt_range.imp_of_mem fun {i j} hi hj hij => .inr (.inr (.inr ?_))
    have hj := List.mem_range.1 hj
    simp only [Edit.Inside, place]
    omega
  rw [← range_violations k (by omega), List.pairwise_map] at hplaces
  exact hplaces

theorem settles_violations {k : Nat} (hk : k ≤ 10) :
    Fixer.Settles (parser 11) {} .javascript (source (stars k)) (violations k) := by
  have hsucc : k + 1 ≤ 11 := Nat.succ_le_succ hk
  rw [Fixer.Settles, apply_violations hk]
  refine ⟨_, violations (k + 1), parser_source (Nat.le_refl 11) hsucc _, rfl,
    lint_source (Nat.le_refl 11) hsucc, ?_⟩
  rw [length_violations (by omega), length_violations (by omega)]
  show 11 - (k + 1) + 1 = 11 - k
  omega

theorem carries_violations {k : Nat} (hk : k ≤ 10) :
    Fixer.Carries (parser 11) {} .javascript (source (stars k)) (violations k) := by
  have hsucc : k + 1 ≤ 11 := Nat.succ_le_succ hk
  obtain ⟨es, e, heq, he, hes, hinside⟩ := editsOf_violations hk
  have hin := inBounds_violations (Nat.le_succ_of_le hk) e (by rw [heq]; simp)
  let move : Int → Int := fun p => if p ≤ (48 + 11 * (10 - k) : Nat) then p else p + 1
  have hmove : StrictMono move := by
    intro p q hpq
    simp only [move]
    split <;> split <;> omega
  rw [Fixer.Carries, apply_violations hk, heq, Edit.leftOut_concat hin hinside]
  refine ⟨violations (k + 1), move, lint_source (Nat.le_refl 11) hsucc, hmove, ?_,
    inBounds_violations hsucc⟩
  have hmoved : es.map (fun e => (move e.startByte, move e.endByte)) =
      (es.map Edit.range).map (Prod.map move move) := by
    rw [List.map_map]
    rfl
  rw [Edit.Moved, range_violations (k + 1) (by omega), hmoved, hes, List.map_map,
    show 11 - (k + 1) = 10 - k by omega]
  refine List.map_congr_left fun i hi => ?_
  have hi := List.mem_range.1 hi
  simp only [place, Function.comp, Prod.map, move, Prod.mk.injEq]
  split <;> split <;> omega

theorem eachPass_stars {P : Bytes → List Violation → Prop}
    (hP : ∀ k ≤ 10, P (source (stars k)) (violations k)) : ∀ (left : Nat) {k : Nat}, k ≤ 11 →
    Fixer.EachPass (parser 11) {} .javascript P left (source (stars k))
  | 0, _, _ => trivial
  | left + 1, k, hk => by
    intro vs hvs happlied
    obtain rfl := Except.ok.inj ((lint_source (Nat.le_refl 11) hk).symm.trans hvs)
    rcases Nat.lt_or_ge k 11 with hlt | hge
    · have hk : k ≤ 10 := Nat.le_of_lt_succ hlt
      refine ⟨hP k hk, ?_⟩
      rw [apply_violations hk]
      exact eachPass_stars hP left hlt
    · obtain rfl : k = 11 := Nat.le_antisymm hk hge
      rw [editsOf_violations_eleven] at happlied
      exact absurd (by simp [Edit.apply, Edit.fromBack]) happlied

theorem run_settled (left : Nat) : Fixer.Run (parser 11) {} .javascript (left + 1)
    (source (stars 11)) ⟨source (stars 11), 0, 0⟩ :=
  .settled (lint_source (Nat.le_refl 11) (Nat.le_refl 11)) editsOf_violations_eleven

end DeepSaga

open DeepSaga in
/-- Ten yields that nest take all ten passes, and then nothing is left. -/
theorem fixSource_deepSaga_settles_nesting :
    ({} : Rule).lint (parser 11) .javascript (source (stars 1)) "" = .ok (violations 1) ∧
      Fixer.EachPass (parser 11) {} .javascript (Fixer.Settles (parser 11) {} .javascript) 10
        (source (stars 1)) ∧
      Fixer.EachPass (parser 11) {} .javascript (Fixer.Carries (parser 11) {} .javascript) 10
        (source (stars 1)) ∧
      (∀ e ∈ Fixer.editsOf (violations 1), e.InBounds (source (stars 1)).length) ∧
      Edit.Nested (Fixer.editsOf (violations 1)) ∧
      (∀ e, ¬Edit.Deep (Fixer.editsOf (violations 1)) 10 e) ∧
      Fixer.fixSource (parser 11) {} .javascript (source (stars 1)) =
        .ok ⟨source (stars 11), 10, 10⟩ ∧
      Fixer.fixSource (parser 11) {} .javascript (source (stars 11)) =
        .ok ⟨source (stars 11), 0, 0⟩ := by
  have hlint := lint_source (Nat.le_refl 11) (show 1 ≤ 11 by decide)
  have hsettles := eachPass_stars (fun _ => settles_violations) 10 (show 1 ≤ 11 by decide)
  have hcarries := eachPass_stars (fun _ => carries_violations) 10 (show 1 ≤ 11 by decide)
  have hin := inBounds_violations (show 1 ≤ 11 by decide)
  have hnested := nested_violations (show 1 ≤ 11 by decide)
  have hdeep : ∀ e, ¬Edit.Deep (Fixer.editsOf (violations 1)) 10 e := fun e hdeep => by
    have hlength := congrArg List.length (range_violations 1 (by decide))
    have hlt := hdeep.lt_length
    simp only [List.length_map, List.length_range] at hlength
    omega
  have hrun : Fixer.fixSource (parser 11) {} .javascript (source (stars 1)) =
      .ok ⟨source (stars 11), 10, 10⟩ :=
    Fixer.passes_of_run (run_stars (Nat.le_refl 11) 10 (Nat.le_refl 11) .exhausted)
  obtain ⟨fixed, after, hfixed, -, -, -, hdone⟩ := Fixer.fixSource_settles_nesting hlint hsettles
  obtain rfl : fixed = ⟨source (stars 11), 10, 10⟩ := Except.ok.inj (hfixed.symm.trans hrun)
  exact ⟨hlint, hsettles, hcarries, hin, hnested, hdeep, hrun,
    (hdone hin hnested hcarries).2 hdeep⟩

namespace DeepSaga

open NestedSaga (effect yielded)

/-- The saga of one yield, which is said to end far behind the source. -/
def overlong : Tree := saga 61 [yielded true false 48 1000 (effect 54 60 [])]

theorem range_overlong : (Fixer.editsOf
    (({} : Rule).check (source [false]) "" (.ofTree overlong))).map Edit.range = [(48, 1000)] := by
  decide +kernel

theorem editsOf_overlong : ∃ e,
    Fixer.editsOf (({} : Rule).check (source [false]) "" (.ofTree overlong)) = [e] ∧
      (Edit.apply (source [false]) [e]).applied = 0 := by
  obtain ⟨e, heq, he⟩ := List.map_eq_singleton_iff.1 range_overlong
  have hlength : (source [false]).length = 61 := by decide +kernel
  have hstop : e.endByte = 1000 := congrArg Prod.snd he
  exact ⟨e, heq, by simp [Edit.apply, Edit.fromBack, Edit.step, Edit.fits, hlength, hstop]⟩

end DeepSaga

open DeepSaga in
/-- Of eleven yields that nest, one is left after ten passes, and is fixed by another
run. An edit that does not fit the source is left by every run. -/
theorem fixSource_deepSaga_leaves_one :
    (({} : Rule).lint (parser 11) .javascript (source (stars 0)) "" = .ok (violations 0) ∧
      Fixer.EachPass (parser 11) {} .javascript (Fixer.Settles (parser 11) {} .javascript) 10
        (source (stars 0)) ∧
      Fixer.EachPass (parser 11) {} .javascript (Fixer.Carries (parser 11) {} .javascript) 10
        (source (stars 0)) ∧
      (∀ e ∈ Fixer.editsOf (violations 0), e.InBounds (source (stars 0)).length) ∧
      Edit.Nested (Fixer.editsOf (violations 0)) ∧
      Fixer.fixSource (parser 11) {} .javascript (source (stars 0)) =
        .ok ⟨source (stars 10), 10, 10⟩ ∧
      ({} : Rule).lint (parser 11) .javascript (source (stars 10)) "" = .ok (violations 10) ∧
      (Fixer.editsOf (violations 10)).length = 1 ∧
      Fixer.fixSource (parser 11) {} .javascript (source (stars 10)) =
        .ok ⟨source (stars 11), 1, 1⟩) ∧
    let blind : Parser := fun _ _ => .ok ⟨overlong, false⟩
    let found := ({} : Rule).check (source [false]) "" (.ofTree overlong)
    Fixer.EachPass blind {} .javascript (Fixer.Settles blind {} .javascript) 10 (source [false]) ∧
      ({} : Rule).lint blind .javascript (source [false]) "" = .ok found ∧
      (Fixer.editsOf found).length = 1 ∧
      Fixer.fixSource blind {} .javascript (source [false]) = .ok ⟨source [false], 0, 1⟩ := by
  have hlint := lint_source (Nat.le_refl 11) (Nat.zero_le 11)
  have hsettles := eachPass_stars (fun _ => settles_violations) 10 (Nat.zero_le 11)
  have hcarries := eachPass_stars (fun _ => carries_violations) 10 (Nat.zero_le 11)
  have hfirst := Fixer.passes_of_run
    (run_stars (k := 0) (Nat.le_refl 11) 10 (show 0 + 10 ≤ 11 by decide) .exhausted)
  have hsecond := Fixer.passes_of_run
    (run_stars (k := 10) (Nat.le_refl 11) 1 (Nat.le_refl 11) (run_settled 8))
  have hleft : (Fixer.editsOf (violations 10)).length = 1 := by
    simpa using congrArg List.length (range_violations 10 (by decide))
  obtain ⟨e, hfix, hidle⟩ := editsOf_overlong
  refine ⟨⟨hlint, hsettles, hcarries, inBounds_violations (Nat.zero_le 11),
    nested_violations (Nat.zero_le 11), hfirst, lint_source (Nat.le_refl 11) (by decide), hleft,
    hsecond⟩, ?_⟩
  intro blind found
  have hblind : ({} : Rule).lint blind .javascript (source [false]) "" = .ok found := rfl
  have hfound : Fixer.editsOf found = [e] := hfix
  refine ⟨fun vs hvs happlied => ?_, hblind, by rw [hfound]; rfl, ?_⟩
  · obtain rfl := Except.ok.inj (hblind.symm.trans hvs)
    rw [hfound] at happlied
    exact absurd hidle happlied
  · exact Fixer.passes_of_run
      (.idle hblind (by rw [hfound]; exact List.cons_ne_nil _ _) (by rw [hfound]; exact hidle))

end YieldLint
