/-
Lines of a text, and lists of texts.
-/
namespace YieldLint.Text

/-- Ends a line: line feed, vertical tab, form feed, carriage return, the three
separators U+001C to U+001E, next line, line separator, paragraph separator. -/
def isLineBreak (c : Char) : Bool :=
  (0x0A ≤ c.toNat && c.toNat ≤ 0x0D) || (0x1C ≤ c.toNat && c.toNat ≤ 0x1E) ||
    c.toNat == 0x85 || c.toNat == 0x2028 || c.toNat == 0x2029

/-- The text before the first line break. -/
def firstLine (s : String) : String :=
  String.ofList (s.toList.takeWhile fun c => !isLineBreak c)

/-- The texts in a row with a separator between neighbours. -/
def joinWith (separator : String) : List String → String
  | [] => ""
  | [s] => s
  | s :: rest => s ++ separator ++ joinWith separator rest

/-- The texts in ascending order of their code points. -/
def ascending (texts : List String) : List String := texts.mergeSort fun a b => decide (a ≤ b)

end YieldLint.Text
