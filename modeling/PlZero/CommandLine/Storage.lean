import PlZero.CommandLine.Path
import PlZero.Display.Outline

/-!
Where a command reads its input and leaves its output: any set of files that can be read and
written by path. `FileTree` is one that is a plain value.
-/

namespace PlZero.CommandLine

/-- Why a file could not be read or written. -/
inductive FileError where
  /-- The operating system refused, with its error number. -/
  | system (code : Nat) (kind message : String)
  /-- The file holds no text in UTF-8. -/
  | notText
  deriving DecidableEq, Repr

namespace FileError

def notFound : FileError := .system 2 "NotFound" "No such file or directory"

/-- The path goes through a file. -/
def notDirectory : FileError := .system 20 "NotADirectory" "Not a directory"

/-- The path leads to a directory. -/
def isDirectory : FileError := .system 21 "IsADirectory" "Is a directory"

/-- The path is too long, or a part of it is too long for a name. -/
def nameTooLong : FileError := .system 36 "InvalidFilename" "File name too long"

def outline : FileError → Outline
  | .system code kind message =>
    .record "Os" [("code", .nat code), ("kind", .atom kind), ("message", .text message)]
  | .notText =>
    .record "Error" [("kind", .atom "InvalidData"),
      ("message", .text "stream did not contain valid UTF-8")]

end FileError

/-- Files that can be read and written by path. -/
structure Storage (m : Type → Type) where
  read (path : String) : m (Except FileError ByteArray)
  write (path content : String) : m (Except FileError Unit)

/-! ### Files as a value -/

/-- All the files there are, each by the names that lead to it from the root, and the directory in
which a command runs. A directory is what is on the way to a file or to `home`. -/
structure FileTree where
  files : List (List String × ByteArray) := []
  home : List String := []

namespace FileTree

/-- What a name leads to. -/
inductive Entry where
  | file (names : List String)
  | directory (names : List String)
  /-- Nothing yet, in a directory that exists. -/
  | free (names : List String)
  deriving DecidableEq, Repr

def content? (t : FileTree) (names : List String) : Option ByteArray := t.files.lookup names

/-- Is something below `names`? -/
def isDirectory (t : FileTree) (names : List String) : Bool :=
  names.isPrefixOf t.home || t.files.any fun file => names.isPrefixOf file.1 && file.1 != names

/-- Puts a file in the place of the one at `names`, if there is one. -/
def put (t : FileTree) (names : List String) (content : ByteArray) : FileTree :=
  { t with files := (names, content) :: t.files.filter (·.1 != names) }

/-- The tree with the given files, by their paths from `home`. Of two files with the same path the
later stays. -/
def ofFiles (home : List String) (files : List (String × ByteArray)) : FileTree :=
  files.foldl (fun t file => t.put (home ++ (Path.parts file.1).filter (· != ".")) file.2) { home }

/-- The longest name a file or directory can have, in bytes. -/
def nameLimit : Nat := 255

/-- The longest path that can be followed, in bytes. -/
def pathLimit : Nat := 4095

/-- What `name` leads to in the directory `here`. The root is the directory above itself. -/
def find (t : FileTree) (here : List String) (name : String) : Except FileError Entry :=
  if name = "." then .ok (.directory here)
  else if name = ".." then .ok (.directory here.dropLast)
  else if name.utf8ByteSize > nameLimit then .error .nameTooLong
  else
    let names := here ++ [name]
    if t.isDirectory names then .ok (.directory names)
    else if (t.content? names).isSome then .ok (.file names)
    else .ok (.free names)

/-- Goes from the directory `here` into the directory called `name`. -/
def enter (t : FileTree) (here : List String) (name : String) :
    Except FileError (List String) := do
  match ← t.find here name with
  | .directory names => return names
  | .file _ => .error .notDirectory
  | .free _ => .error .notFound

/-- Follows a path up to its last name: the directory reached and that name. A path without names
leads to the root and has no last name. -/
def approach (t : FileTree) (path : String) : Except FileError (List String × Option String) := do
  if path = "" then .error .notFound
  else if path.utf8ByteSize > pathLimit then .error .nameTooLong
  else
    let start := if path.startsWith "/" then [] else t.home
    let parts := Path.parts path
    return (← parts.dropLast.foldlM t.enter start, parts.getLast?)

/-- Reads a file. With a slash at its end a path can lead to a directory only. -/
def read (t : FileTree) (path : String) : Except FileError ByteArray := do
  match ← t.approach path with
  | (_, none) => .error .isDirectory
  | (here, some name) =>
    match ← t.find here name with
    | .directory _ => .error .isDirectory
    | .file names =>
      if path.endsWith "/" then .error .notDirectory
      else return (t.content? names).getD .empty
    | .free _ => .error .notFound

/-- Writes a file, making it if there is none. A path with a slash at its end is taken for that of a
directory before its last name is looked up. -/
def write (t : FileTree) (path content : String) : Except FileError FileTree := do
  match ← t.approach path with
  | (_, none) => .error .isDirectory
  | (here, some name) =>
    if path.endsWith "/" then .error .isDirectory
    else match ← t.find here name with
      | .directory _ => .error .isDirectory
      | .file names | .free names => return t.put names content.toUTF8

/-- The files of `after` in its home directory that `before` does not have with the same content, by
their paths from there. -/
def changes (before after : FileTree) : List (String × ByteArray) :=
  let changed := after.files.filter fun file =>
    after.home.isPrefixOf file.1 && (before.content? file.1).map (·.data) != some file.2.data
  (changed.map fun file => ("/".intercalate (file.1.drop after.home.length), file.2)).mergeSort
    fun a b => a.1 ≤ b.1

def storage : Storage (StateM FileTree) where
  read path := return (← get).read path
  write path content := do
    match (← get).write path content with
    | .ok after => set after; return .ok ()
    | .error e => return .error e

end FileTree

end PlZero.CommandLine
