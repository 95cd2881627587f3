import PlZero.Analysis.Program
import PlZero.Listing.Builder
import PlZero.Listing.Render
import PlZero.Lowering
import PlZero.Parser.Grammar
import PlZero.Request
import PlZero.Target
import PlZero.Transcript

/-!
The stages joined: from a source text to an analyzed program, and from there to a listing or to the
record of what lowering asks of a builder.
-/

namespace PlZero

/-- Scans, parses and analyzes a source text. -/
def check (options : Options) (source : String) : Except Failure AnalyzedProgram := do
  analyze options (← parse source)

namespace AnalyzedProgram

def lower {m : Type → Type} [Monad m] {V : Type} (p : AnalyzedProgram) (b : Builder m V) :
    m (Option V) :=
  p.program.lower b

def listing (p : AnalyzedProgram) : Listing :=
  (p.lower (Listing.builder (m := StateM Listing))).run {} |>.2

def code (p : AnalyzedProgram) : Target → String
  | .text => p.listing.render

end AnalyzedProgram

def compile (options : Options) (target : Target) (source : String) : Except Failure String := do
  return (← check options source).code target

/-- What lowering a source text asks of a recording builder, and the value it yields. -/
def transcribe (options : Options) (policy : Transcript.Policy) (source : String) :
    Except Failure (Option String × Transcript) := do
  let program ← check options source
  return (program.lower (Transcript.builder (m := StateM Transcript) policy)).run {}

/-- Makes requests of the listing builder, starting with an empty listing: the requests in the order
in which their calls returned, with what they yielded, and the listing. -/
def Listing.ofRequests (requests : List (Request Listing.Operand)) :
    List (Request Listing.Operand × Option Listing.Operand) × Listing :=
  let note (request : Request Listing.Operand) (value : Option Listing.Operand) :
      StateT (Array (Request Listing.Operand × Option Listing.Operand)) (StateM Listing) Unit :=
    modify (·.push (request, value))
  let ((_, log), listing) := ((Request.makeAll Listing.builder note requests).run #[]).run {}
  (log.toList, listing)

end PlZero
