/-
Edits of a buffer.

`apply` works from the back, so that the offsets of the edits still to come stay
right. It takes an edit that lies inside the buffer, ends before the last one
taken begins, and does not begin where that one begins; it skips the others.
-/
import YieldLint.Failure
import YieldLint.Violation.Basic
import YieldLint.Text.Utf8

namespace YieldLint

/-- Puts a text in place of a range of bytes. -/
structure Edit where
  startByte : Int
  endByte : Int
  text : String
  deriving DecidableEq, Repr

/-- The edit that a fix makes. -/
def Fix.edit (f : Fix) : Edit where
  startByte := f.startByte
  endByte := f.endByte
  text := f.text

/-- What comes of applying edits. -/
structure Edited where
  content : Bytes
  applied : Nat
  skipped : Nat
  deriving DecidableEq, Repr

namespace Edit

/-- Lies inside a buffer of some length. -/
def fits (e : Edit) (length : Nat) : Bool :=
  decide (0 ≤ e.startByte ∧ e.endByte ≤ length ∧ e.startByte ≤ e.endByte)

/-- Keeps clear of an edit taken before, given where that one begins. -/
def clears (e : Edit) : Option Int → Bool
  | none => true
  | some start => decide (e.endByte ≤ start ∧ e.startByte ≠ start)

/-- Stands before another edit when edits are taken from the back: begins later, or
begins at the same byte and ends no earlier. -/
def comesFirst (a b : Edit) : Bool :=
  decide (b.startByte < a.startByte ∨ b.startByte = a.startByte ∧ b.endByte ≤ a.endByte)

/-- The order in which edits are taken: from the back, equal ranges as they were
given. -/
def fromBack (edits : List Edit) : List Edit := edits.mergeSort comesFirst

/-- A buffer with its range replaced. -/
def splice (e : Edit) (content : Bytes) : Bytes :=
  content.take e.startByte.toNat ++ Utf8.encode e.text ++ content.drop e.endByte.toNat

/-- The buffer so far, where the last edit taken begins, and the counts. -/
structure Progress where
  content : Bytes
  lastStart : Option Int
  applied : Nat
  skipped : Nat

/-- Takes or skips an edit. Its bounds are those of the buffer at the start. -/
def step (length : Nat) (p : Progress) (e : Edit) : Progress :=
  if e.fits length && e.clears p.lastStart then
    { content := e.splice p.content, lastStart := some e.startByte,
      applied := p.applied + 1, skipped := p.skipped }
  else { p with skipped := p.skipped + 1 }

/-- Applies edits to a buffer. -/
def apply (content : Bytes) (edits : List Edit) : Edited :=
  let p := (fromBack edits).foldl (step content.length)
    { content, lastStart := none, applied := 0, skipped := 0 }
  { content := p.content, applied := p.applied, skipped := p.skipped }

end Edit

/-- An edit as a caller states it: any of its fields may be missing. -/
structure EditRequest where
  startByte : Option Int
  endByte : Option Int
  text : Option String
  deriving DecidableEq, Repr

namespace EditRequest

/-- A request that states an edit in full. -/
def ofEdit (e : Edit) : EditRequest where
  startByte := some e.startByte
  endByte := some e.endByte
  text := some e.text

/-- The first field that ordering the edits needs and does not find. -/
def missingOffset? (r : EditRequest) : Option String :=
  match r.startByte, r.endByte with
  | none, _ => some "start_byte"
  | some _, none => some "end_byte"
  | some _, some _ => none

/-- The edit, if no field is missing. -/
def edit? (r : EditRequest) : Option Edit :=
  match r.startByte, r.endByte, r.text with
  | some startByte, some endByte, some text => some { startByte, endByte, text }
  | _, _, _ => none

/-- The edits asked for. A missing offset is found first, in the order of the
requests, and a missing text once all offsets are known. -/
def edits (requests : List EditRequest) : Except Failure (List Edit) :=
  match requests.findSome? missingOffset? with
  | some field => .error (.missingField field)
  | none =>
    match requests.mapM edit? with
    | some es => .ok es
    | none => .error (.missingField "text")

/-- Requests in full ask for their edits. -/
theorem edits_map_ofEdit (es : List Edit) : edits (es.map ofEdit) = .ok es := by
  have hm : (es.map ofEdit).findSome? missingOffset? = none := by
    simp [ofEdit, missingOffset?]
  have he : (es.map ofEdit).mapM edit? = some es := by
    induction es with
    | nil => rfl
    | cons e es ih => simp_all [ofEdit, edit?]
  simp [edits, hm, he]

/-- Applies the edits asked for to a buffer. -/
def apply (content : Bytes) (requests : List EditRequest) : Except Failure Edited :=
  (edits requests).map (Edit.apply content)

/-- Requests in full are applied as the edits that they ask for. -/
theorem apply_ofEdit (content : Bytes) (es : List Edit) :
    apply content (es.map ofEdit) = .ok (Edit.apply content es) := by
  rw [apply, edits_map_ofEdit]
  rfl

end EditRequest

end YieldLint
