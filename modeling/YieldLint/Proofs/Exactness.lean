/-
What the fix of a yield does to bytes that are no text.

The fix is a text: what the yield covers is read, gets its star and is written again. Bytes
that spell a text come back as they were; any others come back as the three bytes of the
replacement character. So a fix puts in its star and nothing else just where the bytes behind
the `yield` are a text (`apply_starFix_exact_iff`). In a source of another encoding it
rewrites more than the keyword (`rewritten_quotedSaga`).
-/
import YieldLint.Proofs.Leftovers
import YieldLint.Proofs.Stars

namespace YieldLint

namespace Node

section Yield

variable {n : Node} {source : Bytes} (hstop : n.span.endByte ≤ source.length)
  (hyield : Utf8.encode "yield" <+: Edit.gap source n.span.startByte n.span.endByte)

include hstop hyield

theorem inBounds_starFix : (n.starFix source).edit.InBounds source.length := by
  have := (Edit.gap_of_yield hyield).1
  simp only [Fix.edit, starFix, Edit.InBounds]
  omega

/-- The fix of a yield puts in a star, and what is behind the `yield` read and written. -/
theorem apply_starFix : Edit.apply source [(n.starFix source).edit] =
    { content := source.take (n.span.startByte + 5) ++ star ::
        (Utf8.encode (Utf8.decode (Edit.gap source (n.span.startByte + 5) n.span.endByte)) ++
          source.drop n.span.endByte)
      applied := 1
      skipped := 0 } := by
  have hinner : ∀ f ∈ ([] : List Edit), (n.starFix source).edit.Inside f := fun f hf => nomatch hf
  have hone : Edit.apply source ([] ++ [(n.starFix source).edit]) =
      ⟨(n.starFix source).edit.splice source, 1, 0⟩ :=
    Edit.apply_concat (inBounds_starFix hstop hyield) hinner
  have htext := encode_text_starFix (Edit.gap_of_yield hyield).2.2
  have hsplice := Edit.splice_of_yield (e := (n.starFix source).edit) hyield htext
  rw [List.nil_append] at hone
  rw [hone, hsplice]
  rfl

end Yield

/-- **A fix is exact where what it covers is a text.** The fix of a yield in bounds that begins
with `yield` is applied. It puts a star behind the keyword and, in the place of what the yield
covers behind it, that read and written again; all else stays. What comes of it is the source
with one star put in just when the bytes behind the keyword are a text. -/
theorem apply_starFix_exact_iff {n : Node} {source : Bytes}
    (hstop : n.span.endByte ≤ source.length)
    (hyield : Utf8.encode "yield" <+: Edit.gap source n.span.startByte n.span.endByte) :
    ∃ edited, EditRequest.apply source [.ofEdit (n.starFix source).edit] = .ok edited ∧
      edited.applied = 1 ∧ edited.skipped = 0 ∧
      edited.content = source.take (n.span.startByte + 5) ++ star ::
        (Utf8.encode (Utf8.decode (Edit.gap source (n.span.startByte + 5) n.span.endByte)) ++
          source.drop n.span.endByte) ∧
      (edited.content =
          source.take (n.span.startByte + 5) ++ star :: source.drop (n.span.startByte + 5) ↔
        Utf8.Spells (Edit.gap source (n.span.startByte + 5) n.span.endByte)) := by
  refine ⟨_, EditRequest.apply_ofEdit source [(n.starFix source).edit], ?_⟩
  rw [apply_starFix hstop hyield]
  refine ⟨rfl, rfl, rfl, ?_⟩
  have hbehind : source.drop (n.span.startByte + 5) =
      Edit.gap source (n.span.startByte + 5) n.span.endByte ++ source.drop n.span.endByte :=
    (Edit.gap_append_drop source (Edit.gap_of_yield hyield).1).symm
  rw [hbehind, Utf8.spells_iff_encode_decode]
  simp

end Node

namespace QuotedSaga

open NestedSaga

/-- A saga that yields one call, of a quoted text. -/
def source (text : Bytes) : Bytes :=
  Utf8.encode ("import \x7b call \x7d from 'typed-redux-saga';\n" ++
    "function* saga() \x7b\n  yield call('") ++ text ++ Utf8.encode "');\n\x7d\n"

/-- Its yield, which ends at some byte. -/
def yieldTo (stop : Nat) : Node := .ofTree (yielded true false 62 stop (effect 68 stop []))

end QuotedSaga

open QuotedSaga in
/-- Behind the keyword there may be another one, and characters of several bytes. -/
theorem exact_quotedSaga :
    let text := Utf8.encode "yield* \u2211 yield \u00e9"
    let n := yieldTo 95
    let edited := Edit.apply (source text) [(n.starFix (source text)).edit]
    n.span.endByte ≤ (source text).length ∧
      Utf8.encode "yield" <+: Edit.gap (source text) n.span.startByte n.span.endByte ∧
      Utf8.Spells (Edit.gap (source text) (n.span.startByte + 5) n.span.endByte) ∧
      edited.content = (source text).take 67 ++ star :: (source text).drop 67 := by
  intro text n edited
  have hstop : n.span.endByte ≤ (source text).length := by decide +kernel
  have hyield : Utf8.encode "yield" <+:
      Edit.gap (source text) n.span.startByte n.span.endByte := by decide +kernel
  have hspells : Utf8.Spells (Edit.gap (source text) (n.span.startByte + 5) n.span.endByte) := by
    decide +kernel
  obtain ⟨done, hdone, -, -, -, hexact⟩ := Node.apply_starFix_exact_iff hstop hyield
  have hsame : edited = done :=
    Except.ok.inj ((EditRequest.apply_ofEdit _ [(n.starFix (source text)).edit]).symm.trans hdone)
  exact ⟨hstop, hyield, hspells, hsame ▸ hexact.2 hspells⟩

open QuotedSaga in
/-- In Latin-1, the last letter of the text becomes a replacement character. -/
theorem rewritten_quotedSaga :
    let latin := source (Utf8.encode "caf" ++ [0xE9])
    let n := yieldTo 80
    let edited := Edit.apply latin [(n.starFix latin).edit]
    n.kind = "yield_expression" ∧ n.span.endByte ≤ latin.length ∧
      Utf8.encode "yield" <+: Edit.gap latin n.span.startByte n.span.endByte ∧
      edited.content = (source (Utf8.encode "caf\uFFFD")).take 67 ++
        star :: (source (Utf8.encode "caf\uFFFD")).drop 67 ∧
      edited.content ≠ latin.take 67 ++ star :: latin.drop 67 := by
  intro latin n edited
  exact ⟨by decide +kernel, by decide +kernel, by decide +kernel, by decide +kernel,
    by decide +kernel⟩

end YieldLint
