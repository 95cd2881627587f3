import PlZero.CommandLine.Run

/-!
The command line on the files of the machine it runs on.
-/

namespace PlZero.CommandLine

/-- The operating system's error number, where an error has one. -/
def osCode : IO.Error → Nat
  | .noFileOrDirectory _ code _ | .alreadyExists _ code _ | .permissionDenied _ code _
  | .invalidArgument _ code _ | .inappropriateType _ code _ | .noSuchThing _ code _
  | .resourceExhausted _ code _ | .interrupted _ code _ => code.toNat
  | .otherError code _ | .resourceBusy code _ | .resourceVanished code _
  | .unsupportedOperation code _ | .hardwareFault code _ | .unsatisfiedConstraints code _
  | .illegalOperation code _ | .protocolError code _ | .timeExpired code _ => code.toNat
  | .unexpectedEof | .userError _ => 0

def FileError.ofSystem (e : IO.Error) : FileError :=
  match osCode e with
  | 2 => .notFound
  | 13 => .system 13 "PermissionDenied" "Permission denied"
  | 20 => .notDirectory
  | 21 => .isDirectory
  | 36 => .nameTooLong
  | code => .system code "Uncategorized" (toString e)

def machineFiles : Storage IO where
  read path := do
    try return .ok (← IO.FS.readBinFile path)
    catch e => return .error (.ofSystem e)
  write path content := do
    try
      IO.FS.writeBinFile path content.toUTF8
      return .ok ()
    catch e => return .error (.ofSystem e)

end PlZero.CommandLine

def main (args : List String) : IO UInt32 := do
  match ← PlZero.CommandLine.run PlZero.CommandLine.machineFiles args with
  | .refused =>
    PlZero.CommandLine.helpText.forM fun line => IO.eprintln line
    return 2
  | .ran exit console =>
    IO.print console.stdout
    console.stderr.forM fun line => IO.eprintln line
    return exit.toUInt32
