/-!
File paths as text, and the replacement of a file's extension.

A path is divided by slashes. The name of the file it leads to is its last part, not counting parts
that are empty or a single dot; a path that ends in two dots leads to no named file. The extension
is what stands behind the last dot of the name, unless that dot is its first character.
-/

namespace PlZero.CommandLine.Path

/-- The parts of a path that are not empty. -/
def parts (path : String) : List String := (path.splitOn "/").filter (· != "")

/-- A path without the empty parts and single dots at its end, which do not change where it leads.
Read from the end, the path is `text`. -/
def trimEnd : List Char → List Char
  | [] => []
  | '/' :: text => trimEnd text
  | '.' :: '/' :: text => trimEnd text
  | text => text

/-- What stands before the name of the file and the name itself, if the path leads to a named
file. -/
def split? (path : String) : Option (List Char × List Char) :=
  let text := trimEnd path.toList.reverse
  let name := (text.takeWhile (· != '/')).reverse
  if name = [] ∨ name = ['.'] ∨ name = ['.', '.'] then none
  else some ((text.dropWhile (· != '/')).reverse, name)

/-- The stem of a file's name, and its extension if it has one. -/
def splitName (name : List Char) : List Char × Option (List Char) :=
  let back := name.reverse
  match back.dropWhile (· != '.') with
  | [] | ['.'] => (name, none)
  | _ :: stem => (stem.reverse, some (back.takeWhile (· != '.')).reverse)

/-- A path with the extension put in the place of what follows the stem of the file's name. A path
that leads to no named file stays as it is. -/
def setExtension (path extension : String) : String :=
  match split? path with
  | none => path
  | some (before, name) =>
    String.ofList (before ++ (splitName name).1 ++ '.' :: extension.toList)

/-- A path without the extension of its file; the dot before the extension stays. -/
def dropExtension (path : String) : String :=
  match (split? path).bind fun parts => (splitName parts.2).2 with
  | none => path
  | some old => String.ofList (path.toList.take (path.length - old.length))

def withExtension (path extension : String) : String :=
  setExtension (dropExtension path) extension

end PlZero.CommandLine.Path
