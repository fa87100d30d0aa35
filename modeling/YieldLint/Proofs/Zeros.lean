/-
Fixing moves no zero byte forward.

A linter takes a source for binary if it has a zero among its first bytes. `Delayed` says that
some bytes are no fewer than others and have no zero where those have none up to there. Bytes
that are read as a text and written again are delayed so: what stands for bytes that spell no
character is no shorter than they are, and neither is a character than the bytes that it was
read from (`Open.Sound`, `delayed_step`). So the texts of fixes delay the zeros in the ranges
that they replace, and a pass those of the source (`delayed_apply`). What is no binary source
stays none, and a source without a zero stays one.
-/
import Mathlib
import YieldLint.Linter
import YieldLint.Proofs.Passes
import YieldLint.Proofs.Reports
import YieldLint.Proofs.Spelling
import YieldLint.Proofs.Splice

namespace YieldLint

/-- The second bytes are no fewer than the first, and have no zero where those have none up to
there. -/
structure Delayed (old new : Bytes) : Prop where
  length_le : old.length ≤ new.length
  zero_not_mem : ∀ n, 0 ∉ old.take n → 0 ∉ new.take n

namespace Delayed

variable {a b c d : Bytes}

theorem refl (a : Bytes) : Delayed a a := ⟨Nat.le_refl _, fun _ => id⟩

theorem trans (h : Delayed a b) (h' : Delayed b c) : Delayed a c :=
  ⟨Nat.le_trans h.length_le h'.length_le, fun n => h'.zero_not_mem n ∘ h.zero_not_mem n⟩

theorem of_zero_not_mem (hlength : a.length ≤ b.length) (hzero : 0 ∉ b) : Delayed a b :=
  ⟨hlength, fun _ _ h => hzero (List.mem_of_mem_take h)⟩

/-- What stands behind is moved back, if at all. -/
theorem append (h : Delayed a b) (h' : Delayed c d) : Delayed (a ++ c) (b ++ d) where
  length_le := by
    rw [List.length_append, List.length_append]
    exact Nat.add_le_add h.length_le h'.length_le
  zero_not_mem n hn := by
    rw [List.take_append, List.mem_append, not_or] at hn ⊢
    refine ⟨h.zero_not_mem n hn.1, fun hmem => h'.zero_not_mem _ hn.2 ?_⟩
    exact List.take_subset_take_left d (Nat.sub_le_sub_left h.length_le n) hmem

theorem zero_not_mem_right (h : Delayed a b) (hzero : 0 ∉ a) : 0 ∉ b := by
  have hall := h.zero_not_mem b.length fun hmem => hzero (List.mem_of_mem_take hmem)
  rwa [List.take_length] at hall

theorem isBinary (h : Delayed a b) (ha : Document.isBinary a = false) :
    Document.isBinary b = false := by
  rw [Document.isBinary, ← Bool.not_eq_true, List.contains_iff_mem] at ha ⊢
  exact h.zero_not_mem 8192 ha

end Delayed

theorem Document.isBinary_eq_false {source : Bytes} (hzero : 0 ∉ source) :
    isBinary source = false := by
  rw [isBinary, ← Bool.not_eq_true, List.contains_iff_mem]
  exact fun h => hzero (List.mem_of_mem_take h)

/-! ## What is read and written again -/

namespace Utf8

/-- In how many bytes a character with some number is written. -/
def width (n : Nat) : Nat :=
  if n < 0x80 then 1 else if n < 0x800 then 2 else if n < 0x10000 then 3 else 4

theorem length_encodeChar (c : Char) : (encodeChar c).length = width c.toNat := by
  simp only [encodeChar, width]
  split_ifs <;> rfl

theorem width_mono {m n : Nat} (h : m ≤ n) : width m ≤ width n := by
  unfold width
  split_ifs <;> omega

theorem width_le (n : Nat) : width n ≤ 4 := by
  unfold width
  split_ifs <;> omega

theorem le_width {k n : Nat} (h : k = 2 ∧ 0x80 ≤ n ∨ k = 3 ∧ 0x800 ≤ n ∨ k = 4 ∧ 0x10000 ≤ n) :
    k ≤ width n := by
  unfold width
  split_ifs <;> omega

/-- What is written in two bytes or more is not ASCII. -/
theorem le_of_two_le_width {n : Nat} (h : 2 ≤ width n) : 0x80 ≤ n := by
  unfold width at h
  split_ifs at h <;> omega

theorem zero_not_mem_encodeChar {c : Char} (hc : 0x80 ≤ c.toNat) : 0 ∉ encodeChar c := fun h =>
  absurd (le_toNat_of_mem_encodeChar hc h) (by decide)

theorem zero_not_mem_replacement : 0 ∉ encodeChar replacement := by decide

/-- The least number that an open character may end as. -/
def Open.least (o : Open) : Nat := (o.bits * 64 + (o.low - 0x80)) * 64 ^ (o.missing - 1)

/-- The first number above those that an open character may end as. -/
def Open.limit (o : Open) : Nat := (o.bits * 64 + (o.high - 0x80) + 1) * 64 ^ (o.missing - 1)

/-- Has begun with so many bytes, and ends as a character that is written in no fewer than
those and the missing ones. -/
structure Open.Sound (o : Open) (begun : Nat) : Prop where
  first : 1 ≤ begun
  missing : 1 ≤ o.missing
  fills : begun + o.missing ≤ width o.least
  valid : o.limit ≤ 0xD800 ∨ 0xE000 ≤ o.least ∧ o.limit ≤ 0x110000

theorem sound_of_lead? {b : Nat} {o : Open} (h : lead? b = some o) : o.Sound 1 := by
  unfold lead? at h
  split_ifs at h
  all_goals
    obtain rfl := Option.some.inj h
    refine ⟨Nat.le_refl 1, by simp, le_width ?_, ?_⟩ <;>
      simp only [Open.least, Open.limit, true_and] <;> omega

namespace Open.Sound

variable {o : Open} {begun b : Nat}

/-- A byte in its range leaves less open. -/
theorem next (h : o.Sound begun) (hlow : o.low ≤ b) (hhigh : b ≤ o.high)
    (hmissing : 1 < o.missing) :
    (⟨o.bits * 64 + (b - 0x80), o.missing - 1, 0x80, 0xBF⟩ : Open).Sound (begun + 1) := by
  obtain ⟨bits, missing, low, high⟩ := o
  obtain ⟨k, rfl⟩ : ∃ k, missing = k + 2 := ⟨missing - 2, by simp only at hmissing; omega⟩
  have hleast := Nat.mul_le_mul_right (64 ^ (k + 1))
    (show bits * 64 + (low - 0x80) ≤ bits * 64 + (b - 0x80) by simp only at hlow; omega)
  have hlimit := Nat.mul_le_mul_right (64 ^ (k + 1))
    (show bits * 64 + (b - 0x80) + 1 ≤ bits * 64 + (high - 0x80) + 1 by
      simp only at hhigh; omega)
  have hpow : ∀ n, n * 64 * 64 ^ k = n * 64 ^ (k + 1) := fun n => by
    rw [Nat.pow_succ, Nat.mul_comm (64 ^ k), Nat.mul_assoc]
  obtain ⟨-, -, hw, hv⟩ := h
  simp only [Open.least, Open.limit, Nat.add_succ_sub_one] at hw hv
  have hwidth := width_mono hleast
  refine ⟨by omega, Nat.succ_le_succ (Nat.zero_le k), ?_, ?_⟩
  · simp only [Open.least, Nat.add_sub_cancel, Nat.add_succ_sub_one, Nat.sub_self, Nat.add_zero,
      hpow]
    omega
  · have hsixty : ∀ n, n * 64 + (0xBF - 0x80) + 1 = (n + 1) * 64 := fun n => by omega
    simp only [Open.least, Open.limit, Nat.add_sub_cancel, Nat.add_succ_sub_one, Nat.sub_self,
      Nat.add_zero, hsixty, hpow]
    omega

/-- The last byte gives a character that is no shorter than what it was read from. -/
theorem last (h : o.Sound begun) (hlow : o.low ≤ b) (hhigh : b ≤ o.high)
    (hmissing : o.missing ≤ 1) :
    begun + 1 ≤ width (Char.ofNat (o.bits * 64 + (b - 0x80))).toNat := by
  obtain ⟨-, hone, hw, hv⟩ := h
  obtain hone : o.missing = 1 := Nat.le_antisymm hmissing hone
  simp only [Open.least, Open.limit, hone, Nat.sub_self, Nat.pow_zero, Nat.mul_one] at hw hv
  have hleast : o.bits * 64 + (o.low - 0x80) ≤ o.bits * 64 + (b - 0x80) := by omega
  rw [toNat_ofNat_char]
  · exact Nat.le_trans hw (width_mono hleast)
  · rw [Nat.isValidChar]
    omega

/-- The replacement is no shorter than what has begun and is not ended. -/
theorem begun_le (h : o.Sound begun) : begun ≤ (encodeChar replacement).length := by
  have hlength : (encodeChar replacement).length = 3 := by decide
  have hle := Nat.le_trans h.fills (width_le o.least)
  have := h.missing
  omega

end Open.Sound

/-- The bytes that have begun what is open. -/
def Begun : Option Open → Bytes → Prop
  | none, bs => bs = []
  | some o, bs => o.Sound bs.length

/-- Of some bytes, those that are done are delayed in what was written for them, and the others
have begun what is open. -/
def Halfway (bs : Bytes) (came : List Char × Option Open) : Prop :=
  ∃ done begun, bs = done ++ begun ∧ Delayed done (came.1.flatMap encodeChar) ∧
    Begun came.2 begun

theorem delayed_replacement {o : Open} {begun : Bytes} (h : o.Sound begun.length) :
    Delayed begun (encodeChar replacement) :=
  .of_zero_not_mem h.begun_le zero_not_mem_replacement

theorem halfway_begin (b : UInt8) : Halfway [b] (begin b.toNat) := by
  rw [begin]
  split
  · rename_i hascii
    have hsame : [Char.ofNat b.toNat].flatMap encodeChar = [b] := by
      have hone : (Char.ofNat b.toNat).toNat = b.toNat := toNat_ofNat_char (.inl (by omega))
      rw [List.flatMap_singleton, encodeChar, hone, if_pos hascii, UInt8.ofNat_toNat]
    exact ⟨[b], [], rfl, by rw [hsame]; exact .refl [b], rfl⟩
  split
  · rename_i o ho
    exact ⟨[], [b], rfl, .refl [], sound_of_lead? ho⟩
  · refine ⟨[b], [], rfl, ?_, rfl⟩
    rw [List.flatMap_singleton]
    exact .of_zero_not_mem (by rw [List.length_singleton]; decide) zero_not_mem_replacement

/-- A byte ends a character that is no shorter than what it was read from, or is one of those
that have begun one. -/
theorem halfway_step {o : Option Open} {begun : Bytes} (ho : Begun o begun) (b : UInt8) :
    Halfway (begun ++ [b]) (step o b.toNat) := by
  cases o with
  | none =>
    obtain rfl : begun = [] := ho
    exact halfway_begin b
  | some o =>
    have hsound : o.Sound begun.length := ho
    rw [step]
    split
    · rename_i hrange
      dsimp only
      split
      · rename_i hmissing
        have hwidth := hsound.last hrange.1 hrange.2 hmissing
        have hzero := zero_not_mem_encodeChar
          (le_of_two_le_width (Nat.le_trans (Nat.succ_le_succ hsound.first) hwidth))
        refine ⟨begun ++ [b], [], by simp, ?_, rfl⟩
        rw [List.flatMap_singleton]
        refine .of_zero_not_mem ?_ hzero
        rw [length_encodeChar, List.length_append]
        exact hwidth
      · rename_i hmissing
        refine ⟨[], begun ++ [b], rfl, .refl [], ?_⟩
        rw [Begun, List.length_append]
        exact hsound.next hrange.1 hrange.2 (Nat.lt_of_not_le hmissing)
    · obtain ⟨done, rest, hb, hdone, hrest⟩ := halfway_begin b
      refine ⟨begun ++ done, rest, by rw [hb, List.append_assoc], ?_, hrest⟩
      rw [List.flatMap_cons]
      exact (delayed_replacement hsound).append hdone

/-- What is read, behind the bytes that have begun what is open, is written with its zeros
delayed. -/
theorem delayed_read : ∀ {o : Option Open} {begun : Bytes} (bs : Bytes), Begun o begun →
    Delayed (begun ++ bs) ((read o bs).flatMap encodeChar)
  | none, begun, [], h => by
    obtain rfl : begun = [] := h
    exact .refl []
  | some o, begun, [], h => by
    rw [read, List.append_nil, List.flatMap_singleton]
    exact delayed_replacement h
  | o, begun, b :: bs, h => by
    obtain ⟨done, rest, hb, hdone, hrest⟩ := halfway_step h b
    have hsplit : begun ++ b :: bs = done ++ (rest ++ bs) := by
      rw [← List.append_assoc, ← hb, List.append_assoc]
      rfl
    rw [hsplit, read, List.flatMap_append]
    exact hdone.append (delayed_read bs hrest)

theorem delayed_encode_decode (bs : Bytes) : Delayed bs (encode (decode bs)) := by
  have hnone : Begun none [] := rfl
  rw [encode, decode, String.toList_ofList]
  exact delayed_read bs hnone

/-- Putting a text in place of another delays zeros in it if it does so in that. -/
theorem delayed_replaceFirst {old new : List Char}
    (h : Delayed (old.flatMap encodeChar) (new.flatMap encodeChar)) (cs : List Char) :
    Delayed (cs.flatMap encodeChar) ((Text.replaceFirst old new cs).flatMap encodeChar) := by
  induction cs with
  | nil =>
    rw [Text.replaceFirst]
    split
    · rename_i hold
      rwa [hold] at h
    · exact .refl []
  | cons c cs ih =>
    rw [Text.replaceFirst]
    split
    · rename_i hfirst
      obtain ⟨rest, hrest⟩ := List.isPrefixOf_iff_prefix.1 hfirst
      rw [← hrest, List.drop_left, List.flatMap_append, List.flatMap_append]
      exact h.append (.refl _)
    · rw [List.flatMap_cons, List.flatMap_cons]
      exact (Delayed.refl _).append ih

end Utf8

/-! ## Edits -/

namespace Edit

/-- The text delays the zeros in the range that it replaces. -/
def Delays (content : Bytes) (e : Edit) : Prop :=
  Delayed (gap content e.startByte.toNat e.endByte.toNat) (Utf8.encode e.text)

theorem delayed_weave {content : Bytes} : ∀ (es : List Edit) (start : Nat),
    (∀ e ∈ es, e.InBounds content.length ∧ e.Delays content) → es.Pairwise Precedes →
    (∀ e ∈ es, (start : Int) ≤ e.startByte) →
    Delayed (content.drop start) (weave content start es)
  | [], _, _, _, _ => .refl _
  | e :: es, start, hes, hsorted, hstart => by
    obtain ⟨hin, hdelays⟩ := hes e (by simp)
    obtain ⟨hse, -⟩ := hin.toNat_le
    obtain ⟨he, hsorted⟩ := List.pairwise_cons.1 hsorted
    have hs : start ≤ e.startByte.toNat := by
      have := hstart e (by simp)
      omega
    have hbehind := delayed_weave es e.endByte.toNat (fun f hf => hes f (by simp [hf])) hsorted
      fun f hf => hin.toNat_endByte_le (he f hf).2
    rw [weave, ← gap_append_drop content (Nat.le_trans hs hse), ← gap_append_gap content hs hse]
    exact ((Delayed.refl _).append hdelays).append hbehind

theorem delayed_apply {content : Bytes} {edits : List Edit} (h : ∀ e ∈ edits, e.Delays content) :
    Delayed content (apply content edits).content := by
  have hused : ∀ e ∈ (used content edits).map (·.1),
      e.InBounds content.length ∧ e.Delays content := by
    intro e he
    obtain ⟨a, ha, rfl⟩ := List.mem_map.1 he
    obtain ⟨hmem, hin⟩ := mem_used ha
    exact ⟨hin, h a.1 (List.fst_mem_of_mem_zipIdx hmem)⟩
  have hweave := delayed_weave _ 0 hused (List.pairwise_map.2 (pairwise_used content edits))
    fun e he => (hused e he).1.1
  rw [apply_eq]
  rwa [List.drop_zero] at hweave

end Edit

/-! ## Passes -/

namespace Rule

variable {rule : Rule} {source : Bytes} {top : Node}

/-- A star is put into the text of a node, and a `yield*` in front of what stays. -/
theorem delays_of_mem_findings {f : Finding} (h : f ∈ rule.findings source top) :
    f.fix.edit.Delays source := by
  rcases rule.fix_of_mem_findings source top h with ⟨-, hstar⟩ | ⟨-, hyield⟩
  · rw [hstar, Edit.Delays, Fix.edit, Node.starFix]
    dsimp only
    rw [Int.toNat_natCast, Int.toNat_natCast, Utf8.encode, String.toList_ofList]
    have hread := Utf8.delayed_encode_decode
      (Edit.gap source f.anchor.span.startByte f.anchor.span.endByte)
    have hstarred : Delayed ("yield".toList.flatMap Utf8.encodeChar)
        ("yield*".toList.flatMap Utf8.encodeChar) := .of_zero_not_mem (by decide) (by decide)
    exact hread.trans (Utf8.delayed_replaceFirst hstarred _)
  · rw [hyield, Edit.Delays, Fix.edit, Node.yieldFix]
    have hzero : 0 ∉ Utf8.encode "yield* " := by decide
    exact .of_zero_not_mem (by simp [Edit.gap]) hzero

end Rule

namespace Fixer

variable {parser : Parser} {rule : Rule} {language : Language} {source : Bytes}

theorem delayed_apply (path : String) (top : Node) :
    Delayed source (Edit.apply source (editsOf (rule.check source path top))).content := by
  refine Edit.delayed_apply fun e he => ?_
  rw [editsOf_check] at he
  split at he
  · obtain ⟨f, hf, rfl⟩ := List.mem_map.1 he
    exact rule.delays_of_mem_findings hf
  · cases he

/-- A pass brings no zero in. -/
theorem zero_not_mem_apply {path : String} {top : Node} (hzero : 0 ∉ source) :
    0 ∉ (Edit.apply source (editsOf (rule.check source path top))).content :=
  (delayed_apply path top).zero_not_mem_right hzero

end Fixer

end YieldLint
