/-
Bytes that spell a text.

What stands behind a text spells one just when the whole does
(`spells_encode_append_iff`). An ASCII byte in such bytes is a character of its own, with
a text before it and a text behind it (`spells_parts`), so that another one may be put
behind it (`Spells.insert`).
-/
import YieldLint.Text.Utf8

namespace YieldLint.Utf8

/-- Some text is written in these bytes. -/
def Spells (bs : Bytes) : Prop := ∃ s : String, encode s = bs

theorem spells_encode (s : String) : Spells (encode s) := ⟨s, rfl⟩

theorem spells_iff_encode_decode (bs : Bytes) : Spells bs ↔ encode (decode bs) = bs :=
  ⟨fun ⟨s, h⟩ => by rw [← h, decode_encode], fun h => ⟨_, h⟩⟩

instance (bs : Bytes) : Decidable (Spells bs) :=
  decidable_of_iff _ (spells_iff_encode_decode bs).symm

theorem spells_iff_exists_flatMap (bs : Bytes) :
    Spells bs ↔ ∃ cs : List Char, cs.flatMap encodeChar = bs :=
  ⟨fun ⟨s, h⟩ => ⟨s.toList, h⟩, fun ⟨cs, h⟩ => ⟨String.ofList cs, by simpa [encode] using h⟩⟩

theorem Spells.append {as bs : Bytes} (ha : Spells as) (hb : Spells bs) : Spells (as ++ bs) := by
  rw [spells_iff_exists_flatMap] at *
  obtain ⟨cs, rfl⟩ := ha
  obtain ⟨ds, rfl⟩ := hb
  exact ⟨cs ++ ds, List.flatMap_append⟩

theorem spells_encodeChar (c : Char) : Spells (encodeChar c) :=
  (spells_iff_exists_flatMap _).2 ⟨[c], by simp⟩

theorem spells_flatMap (cs : List Char) : Spells (cs.flatMap encodeChar) :=
  (spells_iff_exists_flatMap _).2 ⟨cs, rfl⟩

/-- What is read behind a text does not depend on it. -/
theorem toList_decode_encode_append (s : String) (bs : Bytes) :
    (decode (encode s ++ bs)).toList = s.toList ++ (decode bs).toList := by
  rw [decode, decode, encode, read_encode, String.toList_ofList, String.toList_ofList]

theorem spells_encode_append_iff (s : String) (bs : Bytes) :
    Spells (encode s ++ bs) ↔ Spells bs := by
  refine ⟨fun h => ?_, (spells_encode s).append⟩
  rw [spells_iff_encode_decode] at h ⊢
  rw [encode, toList_decode_encode_append, List.flatMap_append] at h
  exact List.append_cancel_left h

/-! ## ASCII bytes -/

/-- A character that is not ASCII has no ASCII byte. -/
theorem le_toNat_of_mem_encodeChar {c : Char} (hc : 0x80 ≤ c.toNat) {b : UInt8}
    (h : b ∈ encodeChar c) : 0x80 ≤ b.toNat := by
  have hvalid : c.toNat < 0xD800 ∨ 0xDFFF < c.toNat ∧ c.toNat < 0x110000 := c.valid
  simp only [encodeChar, if_neg (Nat.not_lt.2 hc)] at h
  split at h
  · simp only [List.mem_cons, List.not_mem_nil, or_false] at h
    rcases h with rfl | rfl <;> rw [toNat_ofNat (by omega)] <;> omega
  split at h
  · simp only [List.mem_cons, List.not_mem_nil, or_false] at h
    rcases h with rfl | rfl | rfl <;> rw [toNat_ofNat (by omega)] <;> omega
  · simp only [List.mem_cons, List.not_mem_nil, or_false] at h
    rcases h with rfl | rfl | rfl | rfl <;> rw [toNat_ofNat (by omega)] <;> omega

theorem encodeChar_of_ascii_mem {c : Char} {b : UInt8} (h : b ∈ encodeChar c)
    (hb : b.toNat < 0x80) : encodeChar c = [b] := by
  have hc : c.toNat < 0x80 := Nat.lt_of_not_le fun hc => by
    have := le_toNat_of_mem_encodeChar hc h
    omega
  simp only [encodeChar, if_pos hc, List.mem_singleton] at h ⊢
  rw [h]

theorem toNat_ofNat_char {n : Nat} (h : n.isValidChar) : (Char.ofNat n).toNat = n := by
  rw [Char.ofNat, dif_pos h]
  rfl

/-- ASCII bytes are a text. -/
theorem spells_of_ascii {bs : Bytes} (h : ∀ b ∈ bs, b.toNat < 0x80) : Spells bs := by
  induction bs with
  | nil => exact spells_flatMap []
  | cons b bs ih =>
    have hb : b.toNat < 0x80 := h b (by simp)
    have hchar : (Char.ofNat b.toNat).toNat = b.toNat := toNat_ofNat_char (.inl (by omega))
    have hone : encodeChar (Char.ofNat b.toNat) = [b] := by
      simp [encodeChar, hchar, hb]
    have hrest := ih fun c hc => h c (List.mem_cons_of_mem b hc)
    rw [← List.singleton_append, ← hone]
    exact (spells_encodeChar _).append hrest

/-- A text falls apart at an ASCII byte. -/
theorem spells_parts {b : UInt8} (hb : b.toNat < 0x80) : ∀ (cs : List Char) (pre post : Bytes),
    cs.flatMap encodeChar = pre ++ b :: post → Spells pre ∧ Spells [b] ∧ Spells post
  | [], pre, post, h => by simp at h
  | c :: cs, pre, post, h => by
    rw [List.flatMap_cons, List.append_eq_append_iff] at h
    rcases h with ⟨mid, rfl, h⟩ | ⟨mid, hc, h⟩
    · obtain ⟨hmid, hb', hpost⟩ := spells_parts hb cs mid post h
      exact ⟨(spells_encodeChar c).append hmid, hb', hpost⟩
    cases mid with
    | nil =>
      -- The byte begins the characters behind this one.
      obtain ⟨-, hb', hpost⟩ := spells_parts hb cs [] post h.symm
      exact ⟨by rw [← List.append_nil pre, ← hc]; exact spells_encodeChar c, hb', hpost⟩
    | cons d mid =>
      obtain ⟨rfl, rfl⟩ := List.cons.inj h
      have hone := encodeChar_of_ascii_mem (c := c) (by rw [hc]; simp) hb
      rw [hone] at hc
      obtain ⟨rfl, rfl⟩ : pre = [] ∧ mid = [] := by
        cases pre with
        | nil => simpa using hc
        | cons => simp at hc
      exact ⟨spells_flatMap [], hone ▸ spells_encodeChar c, spells_flatMap cs⟩

/-- Behind an ASCII byte there is room for another text. -/
theorem Spells.insert {b : UInt8} (hb : b.toNat < 0x80) {pre post text : Bytes}
    (h : Spells (pre ++ b :: post)) (ht : Spells text) : Spells (pre ++ b :: (text ++ post)) := by
  obtain ⟨cs, hcs⟩ := (spells_iff_exists_flatMap _).1 h
  obtain ⟨hpre, hb', hpost⟩ := spells_parts hb cs pre post hcs
  have hall := hpre.append (hb'.append (ht.append hpost))
  simpa using hall

end YieldLint.Utf8
