/-! How a value with parts is shown: on one line, or as a block with one part to a line. -/

namespace SlotBuffer

inductive Layout
  | inline
  | block
deriving DecidableEq

namespace Layout

/-- Four blanks for each level. -/
def indent : Nat → String
  | 0 => ""
  | depth + 1 => "    " ++ indent depth

/-- The parts, each on a line of its own and ended by a comma. -/
def lines (depth : Nat) : List String → String
  | [] => ""
  | part :: parts => indent depth ++ part ++ ",\n" ++ lines depth parts

/-- Shows parts between two brackets at a level of indentation. On one line `pad` stands inside the
brackets; a block puts the parts one level deeper. Without parts the brackets meet. -/
def group (layout : Layout) (depth : Nat) (opening closing pad : String) (parts : List String) :
    String :=
  match layout, parts with
  | _, [] => opening ++ closing
  | .inline, parts => opening ++ pad ++ ", ".intercalate parts ++ pad ++ closing
  | .block, parts => opening ++ "\n" ++ lines (depth + 1) parts ++ indent depth ++ closing

end Layout

end SlotBuffer
