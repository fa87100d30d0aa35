/-
How a run of passes ends.

A run makes no more passes than it may, keeps a source that parses without error
free of errors, and changes a source only by edits that it counts. If it ends before
its passes are used up, it ends at rest: a run over what it came to changes nothing,
however many passes it may make (`Run.rests`). This holds of each of its three
endings, also of the pass that is counted and then dropped.
-/
import YieldLint.Proofs.Leftovers
import YieldLint.Proofs.Stars

namespace YieldLint

namespace Parser

/-- Gives a tree for every source. -/
def NeverRefuses (parser : Parser) : Prop :=
  ∀ language source, ∃ parsed, parser language source = .ok parsed

/-- Finds an error in a source. -/
def FindsError (parser : Parser) (language : Language) (source : Bytes) : Prop :=
  ∃ parsed, parser language source = .ok parsed ∧ parsed.hasError = true

end Parser

namespace Fixer

variable {parser : Parser} {rule : Rule} {language : Language}

/-! ## Breaking a source -/

theorem breaks_eq_ok (hp : parser.NeverRefuses) (language : Language) (old new : Bytes) :
    ∃ b, breaks parser language old new = .ok b := by
  obtain ⟨before, hbefore⟩ := hp language old
  obtain ⟨after, hafter⟩ := hp language new
  rw [← Parser.parse_eq_ok_iff] at hbefore hafter
  cases h : after.hasError with
  | false => exact ⟨false, by simp [breaks, hafter, h, bind, Except.bind, pure, Except.pure]⟩
  | true =>
    exact ⟨!before.hasError,
      by simp [breaks, hafter, hbefore, h, bind, Except.bind, pure, Except.pure]⟩

/-- What does not break a source has errors only if the source has. -/
theorem findsError_of_breaks {old new : Bytes} (h : breaks parser language old new = .ok false)
    (hnew : parser.FindsError language new) : parser.FindsError language old := by
  obtain ⟨after, hafter, herror⟩ := hnew
  rw [← Parser.parse_eq_ok_iff] at hafter
  simp only [breaks, hafter, herror, bind, Except.bind, pure, Except.pure, if_true] at h
  split at h
  · cases h
  rename_i before hbefore
  rw [Parser.parse_eq_ok_iff] at hbefore
  exact ⟨before, hbefore, by simpa using h⟩

/-! ## Runs -/

/-- With a parser that never refuses, every run comes to an end. -/
theorem exists_run (hp : parser.NeverRefuses) (rule : Rule) (language : Language) :
    ∀ (left : Nat) (source : Bytes), ∃ fixed, Run parser rule language left source fixed
  | 0, source => ⟨_, .exhausted⟩
  | left + 1, source => by
    obtain ⟨parsed, hparsed⟩ := hp language source
    have hlint : rule.lint parser language source "" = .ok (rule.check source "" parsed.root) := by
      simp [Rule.lint, Parser.parse_eq_ok_iff.2 hparsed, bind, Except.bind, pure, Except.pure]
    by_cases hclean : editsOf (rule.check source "" parsed.root) = []
    · exact ⟨_, .settled hlint hclean⟩
    by_cases hidle : (Edit.apply source (editsOf (rule.check source "" parsed.root))).applied = 0
    · exact ⟨_, .idle hlint hclean hidle⟩
    obtain ⟨b, hb⟩ := breaks_eq_ok hp language source
      (Edit.apply source (editsOf (rule.check source "" parsed.root))).content
    cases b with
    | true => exact ⟨_, .broken hlint rfl hidle hb⟩
    | false =>
      obtain ⟨rest, hrest⟩ := exists_run hp rule language left _
      exact ⟨_, .next hlint rfl hidle hb hrest⟩

namespace Run

variable {left : Nat} {source : Bytes} {fixed : FixedSource}

theorem passes_le (run : Run parser rule language left source fixed) : fixed.passes ≤ left := by
  induction run with
  | exhausted => exact Nat.le_refl _
  | settled => exact Nat.zero_le _
  | idle => exact Nat.succ_le_succ (Nat.zero_le _)
  | broken => exact Nat.succ_le_succ (Nat.zero_le _)
  | next _ _ _ _ _ ih => exact Nat.succ_le_succ ih

/-- A run brings no errors in. -/
theorem findsError (run : Run parser rule language left source fixed)
    (h : parser.FindsError language fixed.source) : parser.FindsError language source := by
  induction run with
  | exhausted => exact h
  | settled => exact h
  | idle => exact h
  | broken => exact h
  | next _ _ _ holds _ ih => exact findsError_of_breaks holds (ih h)

/-- A run that counts no edits makes none. -/
theorem source_eq (run : Run parser rule language left source fixed) (h : fixed.applied = 0) :
    fixed.source = source := by
  cases run with
  | exhausted => rfl
  | settled => rfl
  | idle => rfl
  | broken => rfl
  | next _ _ taken => exact absurd (Nat.add_eq_zero_iff.1 h).1 taken

/-- A run with passes to spare ends where every run ends at once. -/
theorem rests (run : Run parser rule language left source fixed) (h : fixed.passes < left) :
    ∃ n, ∀ more, Run parser rule language (more + 1) fixed.source ⟨fixed.source, 0, n⟩ := by
  induction run with
  | exhausted => exact absurd h (Nat.lt_irrefl 0)
  | settled lint clean => exact ⟨0, fun _ => .settled lint clean⟩
  | idle lint dirty skipped => exact ⟨1, fun _ => .idle lint dirty skipped⟩
  | broken lint apply taken breaks => exact ⟨1, fun _ => .broken lint apply taken breaks⟩
  | next _ _ _ _ _ ih => exact ih (Nat.lt_of_succ_lt_succ h)

end Run

/-- **Fixing comes to rest.** With a parser that never refuses, a source is fixed in
at most ten passes. The result has parse errors only if the source has; if no edit was
applied, it is the source; and if fewer than ten passes were made, fixing it again
changes nothing. -/
theorem fixSource_comes_to_rest (hp : parser.NeverRefuses) (source : Bytes) :
    ∃ fixed, fixSource parser rule language source = .ok fixed ∧
      fixed.passes ≤ 10 ∧
      (parser.FindsError language fixed.source → parser.FindsError language source) ∧
      (fixed.applied = 0 → fixed.source = source) ∧
      (fixed.passes < 10 → ∃ again, fixSource parser rule language fixed.source = .ok again ∧
        again.source = fixed.source ∧ again.applied = 0) := by
  obtain ⟨fixed, run⟩ := exists_run hp rule language maxPasses source
  refine ⟨fixed, passes_of_run run, run.passes_le, run.findsError, run.source_eq, fun h => ?_⟩
  obtain ⟨n, hn⟩ := run.rests h
  exact ⟨⟨fixed.source, 0, n⟩, passes_of_run (hn 9), rfl, rfl⟩

end Fixer

/-! ## A saga of eleven yields -/

namespace DeepSaga

open NestedSaga (piece effect yielded)

/-- Yields in the arguments of yields, from the outside in, with or without a star. -/
def yields : List Bool → Bytes
  | [] => []
  | star :: inner =>
    Utf8.encode (if star then "yield* call(" else "yield call(") ++ yields inner ++
      Utf8.encode ")"

/-- The number of bytes that they take. -/
def size (stars : List Bool) : Nat := 12 * stars.length + stars.count true

/-- Their trees, from a byte on. -/
def trees (start : Nat) : List Bool → List Tree
  | [] => []
  | star :: inner =>
    let stop := start + size (star :: inner)
    let callee := start + 6 + star.toNat
    [yielded true star start stop (effect callee stop (trees (callee + 5) inner))]

def source (stars : List Bool) : Bytes :=
  Utf8.encode "import\x7bcall\x7dfrom'typed-redux-saga';function*s()\x7b" ++ yields stars ++
    Utf8.encode "\x7d"

/-- The tree of a saga, which is the import of its effect and a generator. -/
def saga (stop : Nat) (body : List Tree) : Tree :=
  piece "program" true none 0 stop
    [piece "import_statement" true none 0 35
      [piece "import_clause" true none 6 12
        [piece "named_imports" true none 6 12
          [piece "import_specifier" true none 7 11
            [piece "identifier" true (some "name") 7 11 []]]],
        piece "string" true (some "source") 16 34 []],
    piece "generator_function_declaration" true none 35 stop body]

def tree (stars : List Bool) : Tree := saga (49 + size stars) (trees 48 stars)

/-- Eleven yields, the innermost so many of them with a star. -/
def stars (k : Nat) : List Bool := List.replicate (11 - k) false ++ List.replicate k true

/-- Knows the saga with up to so many stars, and finds an error in all else. -/
def parser (known : Nat) : Parser := fun _ s =>
  let k := s.length - 181
  if k ≤ known ∧ s = source (stars k) then .ok ⟨tree (stars k), false⟩
  else .ok ⟨piece "program" true none 0 s.length [], true⟩

/-- What the rule reports on the saga. -/
def violations (k : Nat) : List Violation :=
  ({} : Rule).check (source (stars k)) "" (.ofTree (tree (stars k)))

/-- The bytes of a yield without a star. -/
def place (k i : Nat) : Int × Int := ((48 + 11 * i : Nat), (180 + k - i : Nat))

/-! What evaluation shows of the sagas. -/

theorem ascii_source : ∀ k < 12, (source (stars k)).all (·.toNat < 0x80) = true := by
  decide +kernel

theorem spelled_tree : ∀ k < 12, ∀ n ∈ (Node.ofTree (tree (stars k))).preorder,
    n.kind = "yield_expression" → n.named = true ∧ n.span.startByte ≤ n.span.endByte ∧
      n.span.endByte ≤ (source (stars k)).length ∧
      Utf8.encode "yield" <+: Edit.gap (source (stars k)) n.span.startByte n.span.endByte := by
  decide +kernel

/-- The yields without a star are reported, from the outside in. -/
theorem range_violations : ∀ k < 12, (Fixer.editsOf (violations k)).map Edit.range =
    (List.range (11 - k)).map (place k) := by
  decide +kernel

theorem put_star : ∀ k < 11,
    (source (stars k)).take (48 + 11 * (10 - k) + 5) ++
      star :: (source (stars k)).drop (48 + 11 * (10 - k) + 5) = source (stars (k + 1)) := by
  decide +kernel

/-! The parser and the passes over the sagas. -/

theorem length_yields : ∀ l : List Bool, (yields l).length = size l
  | [] => rfl
  | star :: inner => by
    have hopen : (Utf8.encode (if star then "yield* call(" else "yield call(")).length =
        11 + star.toNat := by cases star <;> decide
    have hclose : (Utf8.encode ")").length = 1 := by decide
    simp only [yields, List.length_append, hopen, hclose, length_yields inner, size,
      List.length_cons, List.count_cons]
    cases star <;> simp <;> omega

theorem length_source {k : Nat} (hk : k ≤ 11) : (source (stars k)).length = 181 + k := by
  have hopen : (Utf8.encode
      "import\x7bcall\x7dfrom'typed-redux-saga';function*s()\x7b").length = 48 := by
    decide +kernel
  have hclose : (Utf8.encode "\x7d").length = 1 := by decide
  simp only [source, List.length_append, hopen, hclose, length_yields, size, stars,
    List.length_replicate, List.count_append, List.count_replicate]
  simp
  omega

section Parser

variable {known : Nat} (hknown : known ≤ 11)

theorem parser_neverRefuses (known : Nat) : (parser known).NeverRefuses := by
  intro language s
  simp only [parser]
  split
  · exact ⟨_, rfl⟩
  · exact ⟨_, rfl⟩

theorem parser_eq_ok {language : Language} {s : Bytes} {parsed : Parsed}
    (h : parser known language s = .ok parsed) :
    (∃ k ≤ known, s = source (stars k) ∧ parsed = ⟨tree (stars k), false⟩) ∨
      parsed = ⟨piece "program" true none 0 s.length [], true⟩ := by
  simp only [parser] at h
  split at h
  · next hk =>
    cases h
    exact .inl ⟨_, hk.1, hk.2, rfl⟩
  · cases h
    exact .inr rfl

include hknown

theorem parser_source {k : Nat} (hk : k ≤ known) (language : Language) :
    parser known language (source (stars k)) = .ok ⟨tree (stars k), false⟩ := by
  have hlength : (source (stars k)).length - 181 = k := by
    rw [length_source (Nat.le_trans hk hknown)]
    omega
  simp only [parser, hlength, hk, and_self, if_true]

theorem spellsYields : (parser known).SpellsYields := by
  intro language s parsed h n hn hy
  rcases parser_eq_ok h with ⟨k, hk, rfl, rfl⟩ | rfl
  · have hk : k < 12 := by omega
    obtain ⟨hnamed, hse, hlen, hprefix⟩ := spelled_tree k hk n hn hy
    refine ⟨hnamed, hse, hlen, Utf8.spells_of_ascii fun b hb => ?_, hprefix⟩
    exact of_decide_eq_true (List.all_eq_true.1 (ascii_source k hk) b
      (List.mem_of_mem_take (List.mem_of_mem_drop hb)))
  · -- A tree of one node that is no yield.
    have hroot : n = Node.ofTree (piece "program" true none 0 s.length []) := by
      simpa [Parsed.root, Node.preorder_eq, Node.children, Node.ofTree, piece, Tree.children,
        Placed.siblings] using hn
    rw [hroot] at hy
    simp [Node.kind, Node.label, Node.ofTree, piece, Tree.label] at hy

theorem lint_source {k : Nat} (hk : k ≤ known) :
    ({} : Rule).lint (parser known) .javascript (source (stars k)) "" = .ok (violations k) :=
  Fixer.lint_eq_ok_iff.2 ⟨_, parser_source hknown hk _, rfl⟩

end Parser

/-- Of the fixes, the last is inside all others. -/
theorem editsOf_violations {k : Nat} (hk : k ≤ 10) : ∃ es e,
    Fixer.editsOf (violations k) = es ++ [e] ∧ e.range = place k (10 - k) ∧
      es.map Edit.range = (List.range (10 - k)).map (place k) ∧ ∀ f ∈ es, e.Inside f := by
  have hranges := range_violations k (by omega)
  rw [show 11 - k = 10 - k + 1 by omega, List.range_succ, List.map_append,
    List.map_eq_append_iff] at hranges
  obtain ⟨es, last, heq, hes, hlast⟩ := hranges
  obtain ⟨e, rfl, he⟩ := List.map_eq_singleton_iff.1 hlast
  refine ⟨es, e, heq, he, hes, fun f hf => ?_⟩
  have hmem : f.range ∈ (List.range (10 - k)).map (place k) := hes ▸ List.mem_map_of_mem hf
  obtain ⟨i, hi, hfi⟩ := List.mem_map.1 hmem
  have hi := List.mem_range.1 hi
  simp only [place, Edit.range, Prod.mk.injEq] at he hfi
  unfold Edit.Inside
  omega

/-- A pass puts a star into the innermost yield without one. -/
theorem apply_violations {k : Nat} (hk : k ≤ 10) :
    Edit.apply (source (stars k)) (Fixer.editsOf (violations k)) =
      ⟨source (stars (k + 1)), 1, 10 - k⟩ := by
  obtain ⟨es, e, heq, he, hes, hinside⟩ := editsOf_violations hk
  have hstart : e.startByte.toNat = 48 + 11 * (10 - k) := by
    rw [(Prod.mk.inj he).1]
    omega
  obtain ⟨hin, hstars⟩ := Fixer.stars_editsOf (spellsYields (Nat.le_refl 11))
    (lint_source (Nat.le_refl 11) (Nat.le_succ_of_le hk)) (show e ∈ _ by rw [heq]; simp)
  have hlength : es.length = 10 - k := by simpa using congrArg List.length hes
  rw [heq, Edit.apply_concat hin hinside, hstars.splice_eq, hstart, put_star k (by omega),
    hlength]

section Runs

variable {known : Nat} (hknown : known ≤ 11)
include hknown

theorem breaks_source {k : Nat} (hk : k + 1 ≤ known) (old : Bytes) :
    Fixer.breaks (parser known) .javascript old (source (stars (k + 1))) = .ok false :=
  Fixer.breaks_of_parsed (parser_source hknown hk .javascript) rfl

/-- Each pass puts one star in, as long as the parser knows what it makes. -/
theorem run_stars : ∀ (n : Nat) {left k : Nat} {rest : FixedSource}, k + n ≤ known →
    Fixer.Run (parser known) {} .javascript left (source (stars (k + n))) rest →
    Fixer.Run (parser known) {} .javascript (left + n) (source (stars k))
      ⟨rest.source, n + rest.applied, rest.passes + n⟩
  | 0, _, _, _, _, run => by simpa using run
  | n + 1, left, k, rest, hk, run => by
    rw [show k + (n + 1) = k + 1 + n by omega] at hk run
    have hnext := Fixer.Run.next (lint_source hknown (by omega)) (apply_violations (by omega))
      Nat.one_ne_zero (breaks_source hknown (by omega) _) (run_stars n hk run)
    rwa [show 1 + (n + rest.applied) = n + 1 + rest.applied by omega] at hnext

end Runs

theorem run_broken : Fixer.Run (parser 10) {} .javascript 8 (source (stars 10))
    ⟨source (stars 10), 0, 1⟩ := by
  have hold := Parser.parse_eq_ok_iff.2
    (parser_source (k := 10) (show 10 ≤ 11 by decide) (Nat.le_refl 10) .javascript)
  have hnew : (parser 10).parse .javascript (source (stars 11)) =
      .ok ⟨piece "program" true none 0 (source (stars 11)).length [], true⟩ := by
    rw [Parser.parse_eq_ok_iff]
    simp only [parser, length_source (Nat.le_refl 11)]
    rfl
  refine .broken (lint_source (by decide) (Nat.le_refl 10)) (apply_violations (Nat.le_refl 10))
    Nat.one_ne_zero ?_
  simp [Fixer.breaks, hold, hnew, bind, Except.bind, pure, Except.pure]

end DeepSaga

open DeepSaga in
/-- Two passes put stars in, and a third is made and dropped; so is the one pass of
another run. -/
theorem fixSource_deepSaga_comes_to_rest :
    (parser 10).NeverRefuses ∧
      Fixer.fixSource (parser 10) {} .javascript (source (stars 8)) =
        .ok ⟨source (stars 10), 2, 3⟩ ∧
      ((parser 10).FindsError .javascript (source (stars 10)) →
        (parser 10).FindsError .javascript (source (stars 8))) ∧
      ∃ again, Fixer.fixSource (parser 10) {} .javascript (source (stars 10)) = .ok again ∧
        again.source = source (stars 10) ∧ again.applied = 0 := by
  have hrun : Fixer.fixSource (parser 10) {} .javascript (source (stars 8)) =
      .ok ⟨source (stars 10), 2, 3⟩ :=
    Fixer.passes_of_run (run_stars (by decide) 2 (Nat.le_refl 10) run_broken)
  obtain ⟨fixed, hfixed, -, herror, -, hrest⟩ :=
    Fixer.fixSource_comes_to_rest (parser_neverRefuses 10) (source (stars 8))
  obtain rfl : fixed = ⟨source (stars 10), 2, 3⟩ := by
    rw [hrun] at hfixed
    exact (Except.ok.inj hfixed).symm
  exact ⟨parser_neverRefuses 10, hrun, herror, hrest (by decide)⟩

end YieldLint
