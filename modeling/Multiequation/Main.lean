import Multiequation.CommandLine

/-!
# The program

Reads the input that the command line asks for and writes the outcome of the run.
-/

namespace Multiequation.CommandLine

/-- The number of an error, which may be given as a negative word. -/
def osNumber (code : UInt32) : Nat :=
  if code.toNat < 0x80000000 then code.toNat else 0x100000000 - code.toNat

/-- The reason behind the number of an error, in the words of the operating system where the runtime
has other words. -/
def systemReason (details : String) : Nat → String
  | 36 => "File name too long"
  | 40 => "Too many levels of symbolic links"
  | _ => details.capitalize

/-- The reason and number that the operating system gives for an error. -/
def ReadError.ofSystem : IO.Error → ReadError
  | .alreadyExists _ code details | .interrupted _ code details | .noFileOrDirectory _ code details
  | .invalidArgument _ code details | .permissionDenied _ code details
  | .resourceExhausted _ code details | .inappropriateType _ code details
  | .noSuchThing _ code details | .otherError code details | .resourceBusy code details
  | .resourceVanished code details | .unsupportedOperation code details
  | .hardwareFault code details | .unsatisfiedConstraints code details
  | .illegalOperation code details | .protocolError code details | .timeExpired code details =>
    .system (systemReason details (osNumber code)) (osNumber code)
  | .unexpectedEof => .system "Unexpected end of file" 0
  | .userError reason => .system reason 0

/-- Reads a stream up to its end. -/
partial def readToEnd (stream : IO.FS.Stream) (bytes : ByteArray) : IO ByteArray := do
  let more ← stream.read 65536
  if more.isEmpty then return bytes else readToEnd stream (bytes ++ more)

/-- Reads a file or standard input. -/
def readInput (file? : Option String) : IO (Except ReadError ByteArray) := do
  try
    match file? with
    | none => return .ok (← readToEnd (← IO.getStdin) .empty)
    | some path => return .ok (← IO.FS.readBinFile path)
  catch e =>
    return .error (.ofSystem e)

end Multiequation.CommandLine

/-- Runs the program on its arguments. -/
def main (args : List String) : IO UInt32 := do
  let outcome ← Multiequation.CommandLine.run Multiequation.CommandLine.readInput args
  IO.print outcome.stdout
  IO.eprint outcome.stderr
  return outcome.code.toUInt32
