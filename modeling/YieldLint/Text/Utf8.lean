/-
Bytes and the texts they spell.

`encode` is the UTF-8 form of a text. `decode` reads any bytes: a sequence that
is no character becomes U+FFFD, one for each longest piece that begins a
character without finishing it, and one for each byte that begins none. It
reads one byte at a time and holds what the last bytes leave open (`Open`), so
that it is a fold over the bytes. `decode_encode` says that it undoes `encode`.
-/
namespace YieldLint

/-- The contents of a file, or of a buffer. -/
abbrev Bytes := List UInt8

namespace Utf8

/-! ## Writing -/

/-- One character in one to four bytes, six bits in each byte after the first. -/
def encodeChar (c : Char) : Bytes :=
  let n := c.toNat
  if n < 0x80 then [UInt8.ofNat n]
  else if n < 0x800 then [UInt8.ofNat (0xC0 + n / 64), UInt8.ofNat (0x80 + n % 64)]
  else if n < 0x10000 then
    [UInt8.ofNat (0xE0 + n / 4096), UInt8.ofNat (0x80 + n / 64 % 64), UInt8.ofNat (0x80 + n % 64)]
  else
    [UInt8.ofNat (0xF0 + n / 262144), UInt8.ofNat (0x80 + n / 4096 % 64),
      UInt8.ofNat (0x80 + n / 64 % 64), UInt8.ofNat (0x80 + n % 64)]

/-- A text as bytes. -/
def encode (s : String) : Bytes := s.toList.flatMap encodeChar

/-! ## Reading -/

/-- Stands for bytes that spell no character. -/
def replacement : Char := Char.ofNat 0xFFFD

/-- A character that has begun: its bits so far, how many bytes it still needs,
and the range in which its next byte must lie. -/
structure Open where
  bits : Nat
  missing : Nat
  low : Nat
  high : Nat

/-- What a first byte of two, three or four begins. The ranges of the next byte
leave out over-long forms, surrogates and everything past U+10FFFF. -/
def lead? (b : Nat) : Option Open :=
  if b < 0xC2 then none
  else if b < 0xE0 then some ⟨b - 0xC0, 1, 0x80, 0xBF⟩
  else if b = 0xE0 then some ⟨0, 2, 0xA0, 0xBF⟩
  else if b = 0xED then some ⟨0xD, 2, 0x80, 0x9F⟩
  else if b < 0xF0 then some ⟨b - 0xE0, 2, 0x80, 0xBF⟩
  else if b = 0xF0 then some ⟨0, 3, 0x90, 0xBF⟩
  else if b < 0xF4 then some ⟨b - 0xF0, 3, 0x80, 0xBF⟩
  else if b = 0xF4 then some ⟨4, 3, 0x80, 0x8F⟩
  else none

/-- Reads a byte with nothing open: what it gives, and what it leaves open. -/
def begin (b : Nat) : List Char × Option Open :=
  if b < 0x80 then ([Char.ofNat b], none)
  else match lead? b with
    | some o => ([], some o)
    | none => ([replacement], none)

/-- Reads a byte. One that does not continue an open character closes it as a
replacement and begins anew. -/
def step : Option Open → Nat → List Char × Option Open
  | none, b => begin b
  | some o, b =>
    if o.low ≤ b ∧ b ≤ o.high then
      let bits := o.bits * 64 + (b - 0x80)
      if o.missing ≤ 1 then ([Char.ofNat bits], none)
      else ([], some ⟨bits, o.missing - 1, 0x80, 0xBF⟩)
    else (replacement :: (begin b).1, (begin b).2)

/-- Reads bytes, given what the bytes before them leave open. -/
def read : Option Open → Bytes → List Char
  | none, [] => []
  | some _, [] => [replacement]
  | o, b :: bs => (step o b.toNat).1 ++ read (step o b.toNat).2 bs

/-- The text that bytes spell, with replacements for what spells none. -/
def decode (bs : Bytes) : String := String.ofList (read none bs)

/-- The text that bytes spell exactly, if they spell one. -/
def text? (bs : Bytes) : Option String :=
  if encode (decode bs) = bs then some (decode bs) else none

/-! ## Reading what was written -/

theorem toNat_ofNat {n : Nat} (h : n < 256) : (UInt8.ofNat n).toNat = n := by
  simp [UInt8.toNat_ofNat', Nat.mod_eq_of_lt h]

theorem step_lead {b : Nat} {o : Open} (hb : 0x80 ≤ b) (hl : lead? b = some o) :
    step none b = ([], some o) := by
  simp [step, begin, hl, Nat.not_lt.2 hb]

theorem step_more {o : Open} {b : Nat} (hl : o.low ≤ b) (hh : b ≤ o.high) (hm : 1 < o.missing) :
    step (some o) b = ([], some ⟨o.bits * 64 + (b - 0x80), o.missing - 1, 0x80, 0xBF⟩) := by
  simp [step, hl, hh, Nat.not_le.2 hm]

theorem step_last {o : Open} {b : Nat} (hl : o.low ≤ b) (hh : b ≤ o.high) (hm : o.missing ≤ 1) :
    step (some o) b = ([Char.ofNat (o.bits * 64 + (b - 0x80))], none) := by
  simp [step, hl, hh, hm]

theorem lead?_two {n : Nat} (h : 0x80 ≤ n) (h' : n < 0x800) :
    lead? (0xC0 + n / 64) = some ⟨n / 64, 1, 0x80, 0xBF⟩ := by
  unfold lead?
  rw [if_neg (by omega), if_pos (by omega)]
  simp

theorem lead?_three {n : Nat} (h : 0x800 ≤ n) (h' : n < 0x10000) (hs : n < 0xD800 ∨ 0xDFFF < n) :
    ∃ low high, lead? (0xE0 + n / 4096) = some ⟨n / 4096, 2, low, high⟩ ∧
      low ≤ 0x80 + n / 64 % 64 ∧ 0x80 + n / 64 % 64 ≤ high := by
  unfold lead?
  rw [if_neg (by omega), if_neg (by omega)]
  by_cases h0 : n / 4096 = 0
  · exact ⟨0xA0, 0xBF, by simp [h0], by omega, by omega⟩
  by_cases hD : n / 4096 = 0xD
  · exact ⟨0x80, 0x9F, by simp [hD], by omega, by omega⟩
  · rw [if_neg (by omega), if_neg (by omega), if_pos (by omega)]
    exact ⟨0x80, 0xBF, by simp, by omega, by omega⟩

theorem lead?_four {n : Nat} (h : 0x10000 ≤ n) (h' : n < 0x110000) :
    ∃ low high, lead? (0xF0 + n / 262144) = some ⟨n / 262144, 3, low, high⟩ ∧
      low ≤ 0x80 + n / 4096 % 64 ∧ 0x80 + n / 4096 % 64 ≤ high := by
  unfold lead?
  rw [if_neg (by omega), if_neg (by omega), if_neg (by omega), if_neg (by omega),
    if_neg (by omega)]
  by_cases h0 : n / 262144 = 0
  · exact ⟨0x90, 0xBF, by simp [h0], by omega, by omega⟩
  by_cases h4 : n / 262144 = 4
  · exact ⟨0x80, 0x8F, by simp [h4], by omega, by omega⟩
  · rw [if_neg (by omega), if_pos (by omega)]
    exact ⟨0x80, 0xBF, by simp, by omega, by omega⟩

theorem read_encodeChar (c : Char) (bs : Bytes) :
    read none (encodeChar c ++ bs) = c :: read none bs := by
  have hc : c.toNat < 0xD800 ∨ 0xDFFF < c.toNat ∧ c.toNat < 0x110000 := c.valid
  have hback : ∀ m, m = c.toNat → Char.ofNat m = c := fun m h => by rw [h, Char.ofNat_toNat]
  simp only [encodeChar]
  split
  · rename_i h1
    have hb := hback c.toNat rfl
    simp [read, step, begin, toNat_ofNat (show c.toNat < 256 by omega), h1, hb]
  split
  · rename_i h1 h2
    simp only [List.cons_append, List.nil_append, read]
    rw [toNat_ofNat (by omega), toNat_ofNat (by omega),
      step_lead (by omega) (lead?_two (by omega) h2), List.nil_append,
      step_last (by simp) (by simp; omega) (by simp), hback _ (by simp; omega)]
    rfl
  split
  · rename_i h1 h2 h3
    obtain ⟨low, high, hl, hlow, hhigh⟩ := lead?_three (n := c.toNat) (by omega) h3 (by omega)
    simp only [List.cons_append, List.nil_append, read]
    rw [toNat_ofNat (by omega), toNat_ofNat (by omega), toNat_ofNat (by omega),
      step_lead (by omega) hl, List.nil_append,
      step_more hlow hhigh (by simp), List.nil_append,
      step_last (by simp) (by simp; omega) (by simp), hback _ (by simp; omega)]
    rfl
  · rename_i h1 h2 h3
    obtain ⟨low, high, hl, hlow, hhigh⟩ := lead?_four (n := c.toNat) (by omega) (by omega)
    simp only [List.cons_append, List.nil_append, read]
    rw [toNat_ofNat (by omega), toNat_ofNat (by omega), toNat_ofNat (by omega),
      toNat_ofNat (by omega), step_lead (by omega) hl, List.nil_append,
      step_more hlow hhigh (by simp), List.nil_append,
      step_more (by simp) (by simp; omega) (by simp), List.nil_append,
      step_last (by simp) (by simp; omega) (by simp), hback _ (by simp; omega)]
    rfl

theorem read_encode (cs : List Char) (bs : Bytes) :
    read none (cs.flatMap encodeChar ++ bs) = cs ++ read none bs := by
  induction cs with
  | nil => rfl
  | cons c cs ih => rw [List.flatMap_cons, List.append_assoc, read_encodeChar, ih]; rfl

theorem decode_encode (s : String) : decode (encode s) = s := by
  have h := read_encode s.toList []
  rw [List.append_nil] at h
  simp [decode, encode, h, read]

end Utf8

end YieldLint
