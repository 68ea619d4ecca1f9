import Multiequation.Process

/-!
# The command line

The arguments are read in order; a request for help or the version ends the reading at once. The input
is a file, or standard input when no file or a single hyphen is given. An error goes to standard error
and makes the exit code one.
-/

namespace Multiequation.CommandLine

/-- How a system is to be solved. -/
structure Options where
  /-- Whether the substitution is shown instead of the classes. -/
  subst : Bool
  path : Option String
  deriving DecidableEq

/-- What the arguments ask for. -/
inductive Command
  | help
  | version
  | solve (options : Options)
  deriving DecidableEq

/-- What is wrong with an argument. -/
inductive ArgumentError
  | unknownOption (arg : String)
  | unexpectedArgument (arg : String)
  deriving DecidableEq

/-- Why an input could not be read. -/
inductive ReadError
  /-- The operating system refused, with its reason and its error number. -/
  | system (reason : String) (code : Nat)
  | notUtf8
  deriving DecidableEq

/-- What a run leaves behind. -/
structure Outcome where
  code : Nat
  stdout : String
  stderr : String
  deriving DecidableEq

/-! ### Texts -/

/-- The help text. -/
def usage : String :=
  "Usage: multeq [OPTIONS] [FILE]\n\n" ++
  "Solves the equations in FILE, or on stdin when FILE is absent or `-`.\n\n" ++
  "Options:\n" ++
  "      --subst      print the flattened substitution instead of the solved form\n" ++
  "  -h, --help       print this help\n" ++
  "  -v, --version    print version\n"

/-- The name and version of the program. -/
def versionLine : String := "multeq 0.1.0\n"

/-- The message for a wrong argument. -/
def ArgumentError.message : ArgumentError → String
  | .unknownOption arg => "unknown option `" ++ arg ++ "`"
  | .unexpectedArgument arg => "unexpected argument `" ++ arg ++ "`"

/-- The message for an input that could not be read. -/
def ReadError.message : ReadError → String
  | .system reason code => reason ++ s!" (os error {code})"
  | .notUtf8 => "stream did not contain valid UTF-8"

/-! ### Arguments -/

/-- Whether an argument is meant as an option. -/
def isOption (arg : String) : Bool :=
  arg.toList.head? == some '-' && arg != "-"

/-- What the rest of the arguments ask for, after some options. -/
def readArgs (options : Options) : List String → Except ArgumentError Command
  | [] => .ok (.solve options)
  | arg :: args =>
    if arg = "-h" ∨ arg = "--help" then .ok .help
    else if arg = "-v" ∨ arg = "--version" then .ok .version
    else if arg = "--subst" then readArgs { options with subst := true } args
    else if isOption arg then .error (.unknownOption arg)
    else if options.path.isNone then readArgs { options with path := some arg } args
    else .error (.unexpectedArgument arg)

/-- What the arguments ask for. -/
def Command.ofArgs (args : List String) : Except ArgumentError Command :=
  readArgs ⟨false, none⟩ args

/-- The file to be read; `none` stands for standard input. -/
def Options.file? (options : Options) : Option String :=
  if options.path = some "-" then none else options.path

/-! ### Runs -/

/-- A run that ends well. -/
def success (stdout : String) : Outcome := ⟨0, stdout, ""⟩

/-- A run that ends with an error. -/
def failure (message : String) : Outcome := ⟨1, "", "error: " ++ message ++ "\n"⟩

/-- The text that the bytes of an input spell. -/
def decode (bytes : ByteArray) : Except ReadError String :=
  match String.fromUTF8? bytes with
  | some text => .ok text
  | none => .error .notUtf8

/-- The name under which an input is known. -/
def inputName : Option String → String
  | none => "<stdin>"
  | some path => path

/-- The message for an input that could not be read, with the name of the input. -/
def readFailure (file? : Option String) (e : ReadError) : String :=
  let input := match file? with
    | none => "stdin"
    | some path => "`" ++ path ++ "`"
  "failed to read " ++ input ++ ": " ++ e.message

/-- Solves a system and shows its solution. -/
def solveSource (subst : Bool) (source : Source) : Outcome :=
  match source.process with
  | .error e => failure (e.message source)
  | .ok solution => success (if subst then solution.substitution.text else solution.text)

/-- Solves the system in an input that has been read. -/
def solveInput (options : Options) (input : Except ReadError ByteArray) : Outcome :=
  match input >>= decode with
  | .error e => failure (readFailure options.file? e)
  | .ok text => solveSource options.subst ⟨inputName options.file?, text⟩

/-- Does what the arguments ask for; `read` reads a file or standard input. -/
def run {m : Type → Type} [Monad m] (read : Option String → m (Except ReadError ByteArray))
    (args : List String) : m Outcome := do
  match Command.ofArgs args with
  | .error e => return failure e.message
  | .ok .help => return success usage
  | .ok .version => return success versionLine
  | .ok (.solve options) => return solveInput options (← read options.file?)

end Multiequation.CommandLine
