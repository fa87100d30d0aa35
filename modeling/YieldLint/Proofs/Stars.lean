/-
Fixing a source puts stars in, and nothing else.

`Starred s k t` says that `t` is `s` with `k` stars put in, each behind a `d`: then
both are the same without their stars, their lengths differ by `k`, and both are
texts or neither is. The fix of a yield that is spelled as one puts in one star
(`stars_starFix`), a pass puts in as many as it applies fixes (`starred_weave`), and
so does a run of passes (`starred_of_run`). For this a parser must find its yields
where a `yield` is written (`Parser.SpellsYields`).
-/
import YieldLint.Proofs.BareCalls
import YieldLint.Proofs.Passes
import YieldLint.Proofs.Spelling
import YieldLint.Proofs.Splice

namespace YieldLint

/-! ## Stars put in -/

/-- The byte of `*`. -/
def star : UInt8 := 0x2A

/-- A source with some stars put in, each behind a `d`. -/
inductive Starred (s : Bytes) : Nat → Bytes → Prop
  | none : Starred s 0 s
  | put {k : Nat} {pre post : Bytes} (h : Starred s k (pre ++ 0x64 :: post)) :
      Starred s (k + 1) (pre ++ 0x64 :: star :: post)

namespace Starred

theorem trans {k l : Nat} {s t u : Bytes} (hst : Starred s k t) (htu : Starred t l u) :
    Starred s (k + l) u := by
  induction htu with
  | none => exact hst
  | put _ ih => exact .put ih

theorem append_left {k : Nat} {s t : Bytes} (h : Starred s k t) (pre : Bytes) :
    Starred (pre ++ s) k (pre ++ t) := by
  induction h with
  | none => exact .none
  | put _ ih =>
    rw [← List.append_assoc] at ih ⊢
    exact .put ih

/-- Without stars, nothing is changed. -/
theorem filter_eq {k : Nat} {s t : Bytes} (h : Starred s k t) :
    t.filter (· != star) = s.filter (· != star) := by
  induction h with
  | none => rfl
  | put _ ih =>
    rw [← ih]
    simp [List.filter_append, List.filter_cons]

theorem length_eq {k : Nat} {s t : Bytes} (h : Starred s k t) : t.length = s.length + k := by
  induction h with
  | none => rfl
  | put _ ih =>
    simp only [List.length_append, List.length_cons] at ih ⊢
    omega

theorem spells {k : Nat} {s t : Bytes} (h : Starred s k t) (hs : Utf8.Spells s) :
    Utf8.Spells t := by
  induction h with
  | none => exact hs
  | put _ ih => exact ih.insert (by decide) (Utf8.spells_encode "*")

end Starred

/-! ## An edit that puts in a star -/

namespace Edit

/-- Puts a star behind the `yield` with which a range begins. -/
def Stars (content : Bytes) (e : Edit) : Prop :=
  ∃ rest, gap content e.startByte.toNat e.endByte.toNat = Utf8.encode "yield" ++ rest ∧
    Utf8.encode e.text = Utf8.encode "yield*" ++ rest

/-- A range that begins with `yield` has five bytes and what is behind them. -/
theorem gap_of_yield {content : Bytes} {start stop : Nat}
    (h : Utf8.encode "yield" <+: gap content start stop) :
    start + 5 ≤ stop ∧ content.take (start + 5) = content.take start ++ Utf8.encode "yield" ∧
      gap content start stop = Utf8.encode "yield" ++ gap content (start + 5) stop := by
  have hfive : (Utf8.encode "yield").length = 5 := by decide
  have hlength := h.length_le
  simp only [hfive, gap, List.length_drop, List.length_take] at hlength
  have hdrop : Utf8.encode "yield" <+: content.drop start := by
    rw [gap, List.drop_take] at h
    exact h.trans (List.take_prefix _ _)
  refine ⟨by omega, ?_, ?_⟩
  · rw [List.take_add, ← hfive, ← List.prefix_iff_eq_take.1 hdrop]
  · obtain ⟨rest, hrest⟩ := h
    have hrest' : gap content (start + 5) stop = rest := by
      rw [gap, ← List.drop_drop, ← gap, ← hrest, List.drop_left' hfive]
    rw [hrest', hrest]

/-- The star comes behind the five bytes of `yield`. -/
theorem splice_of_yield {content rest : Bytes} {e : Edit}
    (hyield : Utf8.encode "yield" <+: gap content e.startByte.toNat e.endByte.toNat)
    (htext : Utf8.encode e.text = Utf8.encode "yield*" ++ rest) :
    e.splice content = content.take (e.startByte.toNat + 5) ++
      star :: (rest ++ content.drop e.endByte.toNat) := by
  have hstar : Utf8.encode "yield*" = Utf8.encode "yield" ++ [star] := by decide
  rw [splice, htext, hstar, (gap_of_yield hyield).2.1]
  simp

theorem Stars.splice_eq {content : Bytes} {e : Edit} (h : e.Stars content) :
    e.splice content = content.take (e.startByte.toNat + 5) ++
      star :: content.drop (e.startByte.toNat + 5) := by
  obtain ⟨rest, hyield, htext⟩ := h
  have hprefix : Utf8.encode "yield" <+: gap content e.startByte.toNat e.endByte.toNat :=
    ⟨rest, hyield.symm⟩
  obtain ⟨hfive, -, hgap⟩ := gap_of_yield hprefix
  obtain rfl := List.append_cancel_left (hgap.symm.trans hyield)
  rw [splice_of_yield hprefix htext, gap_append_drop content hfive]

/-- A splice of such edits puts in one star for each. -/
theorem starred_weave {content : Bytes} : ∀ (es : List Edit) (start : Nat),
    (∀ e ∈ es, e.InBounds content.length ∧ e.Stars content) → es.Pairwise Precedes →
    (∀ e ∈ es, (start : Int) ≤ e.startByte) →
    Starred (content.drop start) es.length (weave content start es)
  | [], _, _, _, _ => .none
  | e :: es, start, hes, hsorted, hstart => by
    obtain ⟨hin, rest, hyield, htext⟩ := hes e (by simp)
    obtain ⟨hse, -⟩ := hin.toNat_le
    obtain ⟨he, hsorted⟩ := List.pairwise_cons.1 hsorted
    have hs : start ≤ e.startByte.toNat := by
      have := hstart e (by simp)
      omega
    have hbehind := starred_weave es e.endByte.toNat (fun f hf => hes f (by simp [hf])) hsorted
      fun f hf => hin.toNat_endByte_le (he f hf).2
    have hcut : content.drop start = gap content start e.startByte.toNat ++
        (Utf8.encode "yield" ++ rest) ++ content.drop e.endByte.toNat := by
      rw [← hyield, gap_append_gap content hs hse, gap_append_drop content (Nat.le_trans hs hse)]
    have hput := hbehind.append_left
      (gap content start e.startByte.toNat ++ (Utf8.encode "yield" ++ rest))
    rw [← hcut] at hput
    have hsplit : ∀ more : Bytes,
        gap content start e.startByte.toNat ++ (Utf8.encode "yield" ++ rest) ++ more =
          (gap content start e.startByte.toNat ++ Utf8.encode "yiel") ++
            0x64 :: (rest ++ more) := by
      intro more
      have : Utf8.encode "yield" = Utf8.encode "yiel" ++ [0x64] := by decide
      simp [this]
    rw [hsplit] at hput
    have hstar : Utf8.encode "yield*" = Utf8.encode "yiel" ++ [0x64, star] := by decide
    rw [weave, htext, hstar]
    simpa using hput.put

/-- Applying such edits puts in one star for each that is applied. -/
theorem starred_apply {content : Bytes} {edits : List Edit} (h : ∀ e ∈ edits, e.Stars content) :
    Starred content (apply content edits).applied (apply content edits).content := by
  have hused : ∀ e ∈ (used content edits).map (·.1),
      e.InBounds content.length ∧ e.Stars content := by
    intro e he
    obtain ⟨⟨f, i⟩, ha, rfl⟩ := List.mem_map.1 he
    obtain ⟨hmem, hin⟩ := mem_used ha
    exact ⟨hin, h f (List.fst_mem_of_mem_zipIdx hmem)⟩
  have hstarred := starred_weave _ 0 hused
    (List.pairwise_map.2 (pairwise_used content edits)) fun e he => (hused e he).1.1
  rw [apply_eq]
  simpa using hstarred

end Edit

/-! ## Yields as they are written -/

/-- Is named, and covers bytes of the source that are a text and begin with `yield`. -/
def Node.SpellsYield (n : Node) (source : Bytes) : Prop :=
  n.named = true ∧ n.span.startByte ≤ n.span.endByte ∧ n.span.endByte ≤ source.length ∧
    Utf8.Spells (Edit.gap source n.span.startByte n.span.endByte) ∧
    Utf8.encode "yield" <+: Edit.gap source n.span.startByte n.span.endByte

instance (n : Node) (source : Bytes) : Decidable (n.SpellsYield source) :=
  inferInstanceAs (Decidable (_ ∧ _))

/-- Finds yields only where a `yield` is written. -/
def Parser.SpellsYields (parser : Parser) : Prop :=
  ∀ language source parsed, parser language source = .ok parsed →
    ∀ n ∈ parsed.root.preorder, n.kind = "yield_expression" → n.SpellsYield source

/-- The text of a yield's fix, as bytes: `yield*`, and what is behind the `yield`, read and
written again. -/
theorem Node.encode_text_starFix {n : Node} {source rest : Bytes}
    (hyield : Edit.gap source n.span.startByte n.span.endByte = Utf8.encode "yield" ++ rest) :
    Utf8.encode (n.starFix source).text =
      Utf8.encode "yield*" ++ Utf8.encode (Utf8.decode rest) := by
  have htext : (n.text source).toList = "yield".toList ++ (Utf8.decode rest).toList := by
    rw [Node.text, ← Edit.gap, hyield, Utf8.toList_decode_encode_append]
  simp only [Node.starFix, htext, Text.replaceFirst_append]
  simp only [Utf8.encode, String.toList_ofList, List.flatMap_append]

/-- It puts in a star and changes nothing just when what is behind the `yield` is a text. -/
theorem Node.stars_starFix_iff {n : Node} {source rest : Bytes}
    (hyield : Edit.gap source n.span.startByte n.span.endByte = Utf8.encode "yield" ++ rest) :
    (n.starFix source).edit.Stars source ↔ Utf8.Spells rest := by
  have htext := n.encode_text_starFix hyield
  constructor
  · rintro ⟨rest', hyield', htext'⟩
    obtain rfl : rest = rest' := List.append_cancel_left (hyield.symm.trans hyield')
    exact (Utf8.spells_iff_encode_decode rest).2
      (List.append_cancel_left (htext.symm.trans htext'))
  · intro h
    refine ⟨rest, hyield, ?_⟩
    rwa [(Utf8.spells_iff_encode_decode rest).1 h] at htext

/-- The fix of such a yield puts in one star. -/
theorem Node.SpellsYield.stars_starFix {n : Node} {source : Bytes} (h : n.SpellsYield source) :
    (n.starFix source).edit.InBounds source.length ∧ (n.starFix source).edit.Stars source := by
  obtain ⟨-, hse, hlen, hspells, rest, hrest⟩ := h
  rw [← hrest, Utf8.spells_encode_append_iff] at hspells
  refine ⟨?_, (n.stars_starFix_iff hrest.symm).2 hspells⟩
  simp only [Fix.edit, Node.starFix, Edit.InBounds]
  omega

/-! ## Fixing a source -/

namespace Fixer

variable {parser : Parser} {rule : Rule} {language : Language}

theorem lint_eq_ok_iff {source : Bytes} {path : String} {vs : List Violation} :
    rule.lint parser language source path = .ok vs ↔
      ∃ parsed, parser language source = .ok parsed ∧
        rule.check source path parsed.root = vs := by
  simp only [Rule.lint, ← Parser.parse_eq_ok_iff, bind, Except.bind, pure, Except.pure]
  cases parser.parse language source with
  | error f => simp
  | ok parsed => simp

/-- What parses without error is not broken. -/
theorem breaks_of_parsed {old new : Bytes} {parsed : Parsed}
    (h : parser language new = .ok parsed) (hclean : parsed.hasError = false) :
    breaks parser language old new = .ok false := by
  rw [← Parser.parse_eq_ok_iff] at h
  simp [breaks, h, hclean, bind, Except.bind, pure, Except.pure]

/-- The edits of a pass put in a star each. -/
theorem stars_editsOf (hp : parser.SpellsYields) {source : Bytes} {vs : List Violation}
    (h : rule.lint parser language source "" = .ok vs) {e : Edit} (he : e ∈ editsOf vs) :
    e.InBounds source.length ∧ e.Stars source := by
  obtain ⟨parsed, hparsed, rfl⟩ := lint_eq_ok_iff.1 h
  have hspell := hp language source parsed hparsed
  obtain ⟨v, hv, he⟩ := List.mem_filterMap.1 he
  rw [Rule.check, Rule.findings_eq_expected] at hv
  obtain ⟨f, hf, rfl⟩ := List.mem_map.1 hv
  obtain ⟨hy, hfix⟩ := rule.expected?_of_named_yields source parsed.root
    (fun n hn hy => (hspell n hn hy).1) hf
  have hmem := ((rule.mem_expected source parsed.root).1 hf).1
  simp only [Rule.report] at he
  split at he
  · simp only [Option.map_some, Option.some.injEq] at he
    rw [← he, hfix]
    exact (hspell f.anchor hmem hy).stars_starFix
  · cases he

/-- A pass puts in as many stars as it applies fixes. -/
theorem starred_apply (hp : parser.SpellsYields) {source : Bytes} {vs : List Violation}
    (h : rule.lint parser language source "" = .ok vs) :
    Starred source (Edit.apply source (editsOf vs)).applied
      (Edit.apply source (editsOf vs)).content :=
  Edit.starred_apply fun _ he => (stars_editsOf hp h he).2

/-- A run puts in as many stars as it applies fixes. -/
theorem starred_of_run (hp : parser.SpellsYields) {left : Nat} {source : Bytes}
    {fixed : FixedSource} (h : Run parser rule language left source fixed) :
    Starred source fixed.applied fixed.source := by
  induction h with
  | exhausted => exact .none
  | settled => exact .none
  | idle => exact .none
  | broken => exact .none
  | next lint apply _ _ _ ih =>
    subst apply
    exact (starred_apply hp lint).trans ih

/-- **Fixing only puts in stars.** Given a parser that finds yields only where a
`yield` is written, a text that is fixed is the same without its stars, is longer by
one byte for each fix that was applied, and is again a text. -/
theorem fixSource_puts_in_stars (hp : parser.SpellsYields) {source : Bytes}
    (hsource : Utf8.Spells source) {fixed : FixedSource}
    (h : fixSource parser rule language source = .ok fixed) :
    fixed.source.filter (· != star) = source.filter (· != star) ∧
      fixed.source.length = source.length + fixed.applied ∧ Utf8.Spells fixed.source := by
  have hstarred := starred_of_run hp (passes_eq_ok_iff.1 h)
  exact ⟨hstarred.filter_eq, hstarred.length_eq, hstarred.spells hsource⟩

end Fixer

namespace NestedSaga

/-- Knows the saga as it is before, between and after its passes. -/
def parser : Parser := fun _ s =>
  if s = source false false then .ok ⟨tree true false false, false⟩
  else if s = source false true then .ok ⟨tree true false true, false⟩
  else if s = source true true then .ok ⟨tree true true true, false⟩
  else .error "unknown source"

theorem parser_eq_ok {language : Language} {s : Bytes} {parsed : Parsed}
    (h : parser language s = .ok parsed) :
    ∃ outer inner, s = source outer inner ∧ parsed = ⟨tree true outer inner, false⟩ := by
  unfold parser at h
  split at h
  · next hs => exact ⟨false, false, hs, by cases h; rfl⟩
  split at h
  · next hs => exact ⟨false, true, hs, by cases h; rfl⟩
  split at h
  · next hs => exact ⟨true, true, hs, by cases h; rfl⟩
  · cases h

theorem spellsYield_of_mem_tree : ∀ outer inner : Bool,
    ∀ n ∈ (Node.ofTree (tree true outer inner)).preorder,
      n.kind = "yield_expression" → n.SpellsYield (source outer inner) := by
  decide +kernel

theorem spellsYields : parser.SpellsYields := by
  intro language s parsed h n hn hy
  obtain ⟨outer, inner, rfl, rfl⟩ := parser_eq_ok h
  exact spellsYield_of_mem_tree outer inner n hn hy

/-- A pass goes on if it applies some edits and the parser knows what they make. -/
theorem run_next {old new : Bytes} {before after : Tree} {es : List Edit}
    {left applied skipped : Nat} {rest : FixedSource}
    (hbefore : parser .javascript old = .ok ⟨before, false⟩)
    (hafter : parser .javascript new = .ok ⟨after, false⟩)
    (fixes : Fixer.editsOf (({} : Rule).check old "" (.ofTree before)) = es)
    (apply : Edit.apply old es = ⟨new, applied, skipped⟩) (taken : applied ≠ 0)
    (run : Fixer.Run parser {} .javascript left new rest) :
    Fixer.Run parser {} .javascript (left + 1) old
      ⟨rest.source, applied + rest.applied, rest.passes + 1⟩ := by
  subst fixes
  exact .next (Fixer.lint_eq_ok_iff.2 ⟨_, hbefore, rfl⟩) apply taken
    (Fixer.breaks_of_parsed hafter rfl) run

theorem parser_source {outer inner : Bool} (h : outer = true → inner = true)
    (language : Language) :
    parser language (source outer inner) = .ok ⟨tree true outer inner, false⟩ := by
  cases outer with
  | false =>
    cases inner with
    | false => rw [parser, if_pos rfl]
    | true => rw [parser, if_neg (by decide +kernel), if_pos rfl]
  | true =>
    obtain rfl := h rfl
    rw [parser, if_neg (by decide +kernel), if_neg (by decide +kernel), if_pos rfl]

theorem apply_source : Edit.apply (source false true) [⟨48, 73, "yield* call(yield* call())"⟩] =
    ⟨source true true, 1, 0⟩ := by
  decide +kernel

/-- Once the inner yield is settled, a pass settles the outer one, and another finds nothing. -/
theorem run_outer (left : Nat) : Fixer.Run parser {} .javascript (left + 2) (source false true)
    ⟨source true true, 1, 1⟩ :=
  run_next (parser_source (fun _ => rfl) _) (parser_source (fun _ => rfl) _) (by decide +kernel)
    apply_source (by decide) <|
      .settled (Fixer.lint_eq_ok_iff.2 ⟨_, parser_source (fun _ => rfl) _, rfl⟩)
        (by decide +kernel)

end NestedSaga

open NestedSaga in
/-- The first pass settles the inner yield, and the second the outer one. -/
theorem fixSource_nestedSaga_puts_in_stars :
    parser.SpellsYields ∧ Utf8.Spells (source false false) ∧
      Fixer.fixSource parser {} .javascript (source false false) = .ok ⟨source true true, 2, 2⟩ ∧
      (source true true).filter (· != star) = (source false false).filter (· != star) ∧
      (source true true).length = (source false false).length + 2 ∧
      Utf8.Spells (source true true) := by
  let outer : Edit := ⟨48, 72, "yield* call(yield call())"⟩
  let inner : Edit := ⟨59, 71, "yield* call()"⟩
  have hback : Edit.fromBack [outer, inner] = [inner, outer] := by
    simp [Edit.fromBack, List.mergeSort, Edit.comesFirst, outer, inner]
  have hfirst : Edit.apply (source false false) [outer, inner] = ⟨source false true, 1, 1⟩ := by
    rw [Edit.apply, hback]
    decide +kernel
  have hrun : Fixer.fixSource parser {} .javascript (source false false) =
      .ok ⟨source true true, 2, 2⟩ := Fixer.passes_of_run <|
    run_next (parser_source (fun h => h) _) (parser_source (fun _ => rfl) _) (by decide +kernel)
      hfirst (by decide) (run_outer 7)
  exact ⟨spellsYields, Utf8.spells_encode _, hrun,
    Fixer.fixSource_puts_in_stars spellsYields (Utf8.spells_encode _) hrun⟩

end YieldLint
