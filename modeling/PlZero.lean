import PlZero.Main
import PlZero.Proofs.Parser.Item
import PlZero.Tree.Equality
import PlZero.Tree.Names
import PlZero.Proofs.Parser.Sound
import PlZero.Proofs.Parser.Lockstep
import PlZero.Proofs.Parser.Complete
import PlZero.Proofs.Parser.Derivable
import PlZero.Proofs.Parser.Exactness
import PlZero.Proofs.Analysis.Scoping
import PlZero.Proofs.Analysis.Table
import PlZero.Proofs.Parser.Shape
import PlZero.Proofs.Listing.Watched
import PlZero.Proofs.Listing.Agreement
import PlZero.Proofs.Semantics.Behavior
import PlZero.Proofs.Semantics.Evaluation
import PlZero.Proofs.Semantics.Machine
import PlZero.Proofs.Listing.Layout
import PlZero.Proofs.Semantics.Simulation
import PlZero.Proofs.Semantics.Statements
import PlZero.Proofs.Semantics.Correctness
import PlZero.Proofs.Analysis.Lexical
import PlZero.Proofs.Analysis.Refinement
import PlZero.Proofs.Listing.ControlFlow
import PlZero.Proofs.Analysis.Resolved
import PlZero.Proofs.Listing.Code
import PlZero.Proofs.Listing.Translation
import PlZero.Proofs.Listing.Declarations
import PlZero.Proofs.Analysis.Declared
import PlZero.Proofs.Listing.Storage
import PlZero.Proofs.Listing.Calls
import PlZero.Proofs.Listing.LocalNames
import PlZero.Proofs.Listing.GlobalNames
import PlZero.Proofs.Analysis.StoredScopes
import PlZero.Proofs.Parser.RoundTrip
import PlZero.Proofs.Parser.Assembly
import PlZero.Proofs.Tree.Relabel
import PlZero.Proofs.Analysis.Prelude
import PlZero.Proofs.Analysis.Lines
import PlZero.Proofs.Analysis.Operands
import PlZero.Proofs.Tree.Bare
import PlZero.Proofs.Analysis.Faults
import PlZero.Proofs.Analysis.ScopeStructure
import PlZero.Proofs.Listing.SingleAssignment
import PlZero.Proofs.Semantics.ConstantValues
import PlZero.Proofs.Analysis.Classes
import PlZero.Proofs.Listing.Folding
import PlZero.Proofs.Lowering.Deferral
import PlZero.Proofs.Lowering.Recorder
import PlZero.Proofs.Parser.LetterCase
import PlZero.Proofs.Text.Quoted
import PlZero.Proofs.Listing.AssemblyLines
import PlZero.Proofs.Analysis.TableHistory
import PlZero.Proofs.Listing.FrameStack
