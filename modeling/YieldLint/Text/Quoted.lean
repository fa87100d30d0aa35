/-
Paths in quotes, as messages of the file system show them.

A path stands between single quotes, or between double quotes if it holds a
single quote and no double one. A backslash and the surrounding quote are
escaped by a backslash; line feed, carriage return and tab have their letters;
any other unprintable character is written by its code point in two, four or
eight hexadecimal digits.
-/
import YieldLint.Text.Unprintable

namespace YieldLint.Text

/-- A number in lower-case hexadecimal digits, padded with zeros to a width. -/
def hex (width n : Nat) : List Char :=
  let digits := Nat.toDigits 16 n
  List.replicate (width - digits.length) '0' ++ digits

/-- One character between quotes of the given kind. -/
def quoteChar (quote c : Char) : List Char :=
  if c = quote ∨ c = '\\' then ['\\', c]
  else if c = '\n' then ['\\', 'n']
  else if c = '\r' then ['\\', 'r']
  else if c = '\t' then ['\\', 't']
  else if isUnprintable c then
    if c.toNat < 0x100 then '\\' :: 'x' :: hex 2 c.toNat
    else if c.toNat < 0x10000 then '\\' :: 'u' :: hex 4 c.toNat
    else '\\' :: 'U' :: hex 8 c.toNat
  else [c]

/-- A path in quotes. -/
def quoted (s : String) : String :=
  let quote := if '\x27' ∈ s.toList ∧ '\x22' ∉ s.toList then '\x22' else '\x27'
  String.ofList (quote :: s.toList.flatMap (quoteChar quote) ++ [quote])

end YieldLint.Text
