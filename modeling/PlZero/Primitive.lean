/-!
The functions of the runtime library that every program can call. They take and return integers of
32 bits; arrays, strings and files are known by integer handles.
-/

namespace PlZero

/-- A runtime function and the number of its arguments. -/
structure Primitive where
  name : String
  arity : Nat
  deriving DecidableEq, Repr

namespace Primitive

/-- Arrays, by handle. -/
def arrays : List Primitive :=
  [⟨"newarray", 0⟩, ⟨"freearray", 1⟩, ⟨"getarraypos", 2⟩, ⟨"setarraypos", 3⟩, ⟨"arrayfront", 1⟩,
    ⟨"arrayback", 1⟩, ⟨"arrayempty", 1⟩, ⟨"arraylen", 1⟩, ⟨"arraycapacity", 1⟩, ⟨"arrayclear", 1⟩,
    ⟨"arraypush", 2⟩, ⟨"arraypop", 1⟩, ⟨"arrayresize", 2⟩]

/-- Real numbers, passed around as their bit patterns. -/
def reals : List Primitive :=
  [⟨"inttoreal", 1⟩, ⟨"realtoint", 1⟩, ⟨"realisnan", 1⟩, ⟨"realadd", 2⟩, ⟨"realsub", 2⟩,
    ⟨"realmul", 2⟩, ⟨"realdiv", 2⟩, ⟨"realless", 2⟩, ⟨"reallesseq", 2⟩, ⟨"realgreat", 2⟩,
    ⟨"realgreateq", 2⟩, ⟨"realabs", 1⟩, ⟨"realmod", 2⟩, ⟨"realpow", 2⟩, ⟨"realsqrt", 1⟩,
    ⟨"realmax", 2⟩, ⟨"realmin", 2⟩, ⟨"realexp", 1⟩, ⟨"realexp2", 1⟩, ⟨"reallog", 1⟩,
    ⟨"reallog10", 1⟩, ⟨"reallog2", 1⟩, ⟨"realsin", 1⟩, ⟨"realcos", 1⟩, ⟨"realtan", 1⟩,
    ⟨"realasin", 1⟩, ⟨"realacos", 1⟩, ⟨"realatan", 1⟩, ⟨"realsinh", 1⟩, ⟨"realcosh", 1⟩,
    ⟨"realtanh", 1⟩, ⟨"realasinh", 1⟩, ⟨"realacosh", 1⟩, ⟨"realatanh", 1⟩, ⟨"realceil", 1⟩,
    ⟨"realfloor", 1⟩]

def console : List Primitive :=
  [⟨"read", 0⟩, ⟨"write", 1⟩, ⟨"writeln", 1⟩, ⟨"print", 1⟩, ⟨"println", 1⟩, ⟨"getfloat", 0⟩,
    ⟨"putfloat", 1⟩, ⟨"getstd", 1⟩, ⟨"flush", 1⟩, ⟨"open", 2⟩, ⟨"close", 1⟩, ⟨"readfile", 4⟩,
    ⟨"writefile", 4⟩, ⟨"readchar", 1⟩, ⟨"writechar", 2⟩, ⟨"readstring", 3⟩, ⟨"writestring", 2⟩,
    ⟨"tell", 1⟩, ⟨"seek", 3⟩]

def logic : List Primitive :=
  [⟨"and", 2⟩, ⟨"or", 2⟩, ⟨"not", 1⟩, ⟨"xor", 2⟩, ⟨"shl", 2⟩, ⟨"shr", 2⟩, ⟨"mod", 2⟩,
    ⟨"logicand", 2⟩, ⟨"logicor", 2⟩, ⟨"logicnot", 1⟩]

/-- Strings, by handle. -/
def strings : List Primitive :=
  [⟨"newstring", 1⟩, ⟨"freestring", 1⟩, ⟨"getstringpos", 2⟩, ⟨"setstringpos", 3⟩,
    ⟨"stringlen", 1⟩, ⟨"stringadd", 2⟩, ⟨"stringconcat", 2⟩, ⟨"stringcompare", 2⟩,
    ⟨"stringassign", 2⟩, ⟨"stringtoint", 1⟩, ⟨"inttostring", 1⟩, ⟨"stringtoreal", 1⟩,
    ⟨"realtostring", 1⟩]

def system : List Primitive :=
  [⟨"quit", 1⟩, ⟨"getargcount", 0⟩, ⟨"getargvalue", 1⟩, ⟨"randomize", 1⟩, ⟨"getrand", 0⟩,
    ⟨"timestamp", 0⟩]

def all : List Primitive := arrays ++ reals ++ console ++ logic ++ strings ++ system

def find? (name : String) : Option Primitive := all.find? (·.name == name)

end Primitive

end PlZero
