import PlZero.Display.Outline
import PlZero.Failure

/-!
Failures as they are shown when a command ends in one.
-/

namespace PlZero

def Failure.outline : Failure → Outline
  | .grammar line message =>
    .record "SyntaxError" [("line", .nat line), ("message", .text message)]
  | .lexical line message => .record "LexerError" [("line", .nat line), ("message", .text message)]
  | .semantic count => .record "SemanticError" [("count", .nat count)]
  | .rejected count => .record "Failed" [("count", .nat count)]
  | .unknownTarget name => .record "UnknownTarget" [("name", .text name)]
  | .storage message => .record "IoError" [("source", .text message)]

end PlZero
