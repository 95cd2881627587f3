import PlZero.Text.Quoted

/-!
Outlines: values laid out as text for a reader, with the names of their parts. An outline can be
written on one line, or over several lines with the parts of each value indented below it.
-/

namespace PlZero

/-- A value to be shown. -/
inductive Outline where
  /-- A value shown by its own text. -/
  | atom (text : String)
  /-- A named value with named parts. -/
  | record (name : String) (fields : List (String × Outline))
  /-- A named value with one part. -/
  | wrapped (name : String) (inner : Outline)
  | items (list : List Outline)

namespace Outline

def text (s : String) : Outline := .atom (Text.quoted s)

def nat (n : Nat) : Outline := .atom (toString n)

def option : Option Outline → Outline
  | none => .atom "None"
  | some inner => .wrapped "Some" inner

/-! ### On one line -/

mutual

/-- An outline on one line. -/
def inline : Outline → String
  | .atom text => text
  | .record name fields => name ++ " \x7b " ++ ", ".intercalate (inlineFields fields) ++ " \x7d"
  | .wrapped name inner => name ++ "(" ++ inner.inline ++ ")"
  | .items list => "[" ++ ", ".intercalate (inlineItems list) ++ "]"

def inlineFields : List (String × Outline) → List String
  | [] => []
  | (name, value) :: rest => (name ++ ": " ++ value.inline) :: inlineFields rest

def inlineItems : List Outline → List String
  | [] => []
  | value :: rest => value.inline :: inlineItems rest

end

/-! ### Over several lines -/

/-- The lines of a part: a label before the first, a comma behind the last, all of them indented. -/
def part (label : String) (lines : List String) : List String :=
  let labeled := match lines with
    | [] => [label]
    | first :: rest => (label ++ first) :: rest
  let closed := labeled.dropLast ++ (labeled.getLast?.map (· ++ ",")).toList
  closed.map ("    " ++ ·)

mutual

/-- An outline over several lines. -/
def lines : Outline → List String
  | .atom text => [text]
  | .record name fields => [name ++ " \x7b"] ++ linesFields fields ++ ["\x7d"]
  | .wrapped name inner => [name ++ "("] ++ part "" inner.lines ++ [")"]
  | .items [] => ["[]"]
  | .items (first :: rest) => ["["] ++ part "" first.lines ++ linesItems rest ++ ["]"]

def linesFields : List (String × Outline) → List String
  | [] => []
  | (name, value) :: rest => part (name ++ ": ") value.lines ++ linesFields rest

def linesItems : List Outline → List String
  | [] => []
  | value :: rest => part "" value.lines ++ linesItems rest

end

end Outline

end PlZero
