import PlZero.Failure

/-!
The targets that a program can be compiled for.
-/

namespace PlZero

inductive Target where
  /-- The instruction listing. -/
  | text
  deriving DecidableEq, Repr

namespace Target

def all : List Target := [.text]

def name : Target → String
  | .text => "text"

def description : Target → String
  | .text => "Readable SSA-style IR listing"

/-- The extension of the files made for a target. -/
def extension : Target → String
  | .text => "ll"

def ofName (name : String) : Except Failure Target :=
  match all.find? (·.name == name) with
  | some target => .ok target
  | none => .error (.unknownTarget name)

end Target

end PlZero
