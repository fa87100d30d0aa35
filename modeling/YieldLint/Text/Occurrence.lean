/-
The first occurrence of one text in another.

`replaceFirst_append` says what happens where the text begins with the piece
that is replaced: only that occurrence changes.
-/
namespace YieldLint.Text

/-- Replaces the first occurrence of `old` by `new`; a text without one stays. -/
def replaceFirst (old new : List Char) : List Char → List Char
  | [] => if old = [] then new else []
  | c :: cs =>
    if old.isPrefixOf (c :: cs) then new ++ (c :: cs).drop old.length
    else c :: replaceFirst old new cs

theorem replaceFirst_append (old new rest : List Char) :
    replaceFirst old new (old ++ rest) = new ++ rest := by
  cases h : old ++ rest with
  | nil =>
    obtain ⟨rfl, rfl⟩ := List.append_eq_nil_iff.1 h
    simp [replaceFirst]
  | cons c cs =>
    have hp : old.isPrefixOf (c :: cs) = true := by
      rw [← h]; simp
    rw [replaceFirst, if_pos hp, ← h]
    simp

end YieldLint.Text
