import StackCode.Generator
import StackCode.Listing
import StackCode.Tree.Reader

/-!
# The command line

`parse` turns arguments into a request; `run` answers a request to compile, given what was read from
its input. Neither reads or prints anything: the outcome holds the two texts to be printed and the
exit code.

Arguments are taken in order, and the first that cannot be accepted decides. A request for help or
for the version is answered as soon as it is met.

Reading is the one thing that has to be done in between, so `run` is given a way to read and works
in any monad. With a reader that looks the contents up in a table the whole program is a function
that can be evaluated.

A refusal of arguments has an exit code and no text here. Its wording and its layout are left out.
-/

set_option autoImplicit false

namespace StackCode.CommandLine

open Text (Style)

/-! ## Arguments

Options and the input may come in any order, and behind `--` everything is input. An option that is
given twice is refused, and so is one that is given a value. -/

/-- The options, none of which takes a value. -/
inductive Flag where
  | noFold | verbose | noColor | help | version
deriving DecidableEq

/-- The names of options behind two dashes. -/
def Flag.longNames : List (String × Flag) :=
  [("no-fold", .noFold), ("verbose", .verbose), ("no-color", .noColor), ("help", .help),
    ("version", .version)]

/-- The names of options behind one dash. -/
def Flag.shortNames : List (Char × Flag) :=
  [('h', .help), ('V', .version)]

/-- Why arguments are refused. -/
inductive UsageError where
  | unknownArgument (arg : String)
  | unneededValue (flag : Flag)
  | repeated (flag : Flag)
  | secondInput (arg : String)
  | emptyInput
  | missingInput
deriving DecidableEq

/-- What to compile and how. -/
structure Settings where
  /-- A path, or `-` for standard input. -/
  input : String
  fold : Bool := true
  verbose : Bool := false
  color : Bool := true
deriving DecidableEq

inductive Request where
  | help
  | version
  | compile (settings : Settings)
deriving DecidableEq

/-- What the arguments so far have said. -/
structure Seen where
  flags : List Flag := []
  input : Option String := none

namespace Seen

/-- Takes an input, of which there may be only one. -/
def addInput (seen : Seen) (arg : String) : Except UsageError Seen :=
  match seen.input with
  | none => .ok { seen with input := some arg }
  | some _ => .error (.secondInput arg)

/-- Takes an option. An input given before it must not be empty. -/
def addFlag (seen : Seen) (flag : Flag) : Except UsageError Seen :=
  if seen.input = some "" then .error .emptyInput
  else if flag ∈ seen.flags then .error (.repeated flag)
  else .ok { seen with flags := flag :: seen.flags }

/-- The answer that is due at once. -/
def answer? (seen : Seen) : Option Request :=
  if .help ∈ seen.flags then some .help
  else if .version ∈ seen.flags then some .version
  else none

/-- The request once all arguments are taken. -/
def finish (seen : Seen) : Except UsageError Request :=
  match seen.input with
  | none => .error .missingInput
  | some "" => .error .emptyInput
  | some input =>
    .ok <| .compile
      { input
        fold := .noFold ∉ seen.flags
        verbose := .verbose ∈ seen.flags
        color := .noColor ∉ seen.flags }

end Seen

/-- What one argument is. -/
inductive Argument where
  | endOfOptions
  | option (flag : Flag)
  | input (arg : String)
  | refused (why : UsageError)

/-- Classifies an argument in front of the end of options. Of options behind one dash the first
letter decides: it is unknown, or it is answered at once. -/
def Argument.ofString (arg : String) : Argument :=
  match arg.toList with
  | ['-', '-'] => .endOfOptions
  | '-' :: '-' :: name =>
    match Flag.longNames.lookup (String.ofList (name.takeWhile (· ≠ '='))) with
    | none => .refused (.unknownArgument arg)
    | some flag => if '=' ∈ name then .refused (.unneededValue flag) else .option flag
  | '-' :: letter :: _ =>
    match Flag.shortNames.lookup letter with
    | none => .refused (.unknownArgument arg)
    | some flag => .option flag
  | _ => .input arg

/-- Takes arguments behind the end of options. -/
def parseInputs (seen : Seen) : List String → Except UsageError Request
  | [] => seen.finish
  | arg :: args => do
    let seen ← seen.addInput arg
    parseInputs seen args

/-- Takes arguments behind those that have been seen. -/
def parseFrom (seen : Seen) : List String → Except UsageError Request
  | [] => seen.finish
  | arg :: args =>
    match Argument.ofString arg with
    | .endOfOptions => parseInputs seen args
    | .refused why => .error why
    | .input arg => do
      let seen ← seen.addInput arg
      parseFrom seen args
    | .option flag => do
      let seen ← seen.addFlag flag
      match seen.answer? with
      | some request => .ok request
      | none => parseFrom seen args

/-- The request that a list of arguments makes. -/
def parse (args : List String) : Except UsageError Request :=
  parseFrom {} args

/-! ## Failures

Three things can go wrong once the arguments are accepted. The input cannot be read, what was read
is no tree, or the tree cannot be compiled; each is reported in one line. -/

/-- Why an input cannot be read. -/
inductive ReadFailure where
  | missing
  | directory
  | notDirectory
  | nameTooLong
  | notText
  | other (reason : String)
deriving DecidableEq

def ReadFailure.message : ReadFailure → String
  | .missing => "No such file or directory (os error 2)"
  | .directory => "Is a directory (os error 21)"
  | .notDirectory => "Not a directory (os error 20)"
  | .nameTooLong => "File name too long (os error 36)"
  | .notText => "stream did not contain valid UTF-8"
  | .other reason => reason

/-- The text of an input. -/
def decodeText (bytes : ByteArray) : Except ReadFailure String :=
  match String.fromUTF8? bytes with
  | some text => .ok text
  | none => .error .notText

/-- Why an input is not compiled. -/
inductive Failure where
  | unreadable (why : ReadFailure)
  | noTree (fault : Fault)
  | uncompiled (error : CompileError)

/-- The message of a failure. A text that is no tree is reported with the fault at its end once
more, as the cause of the whole. -/
def Failure.message (input : String) : Failure → String
  | .unreadable why =>
    let source := if input = "-" then "stdin" else input
    s!"cannot read {source}: {why.message}"
  | .noTree fault => s!"cannot load syntax tree from {input}: {fault.treeMessage}: {fault.message}"
  | .uncompiled error => error.message

/-! ## Running

The listing goes to the output, and everything else to the error channel: the log, if it is asked
for, and the failure, if there is one. -/

/-- What a run prints, and its exit code. -/
structure Outcome where
  exitCode : UInt32 := 0
  out : String := ""
  err : String := ""
deriving DecidableEq

/-- What log lines of a unit start with. -/
def spanLog : UnitOrigin → String
  | .function name => s!"compile_function\x7bunit={name}\x7d"
  | .toplevel => s!"compile_toplevel\x7bunit={Text.quote UnitOrigin.toplevel.name}\x7d"

/-- The log line of a closed unit. -/
def unitLog (origin : UnitOrigin) (unit : CodeUnit) : String :=
  s!"DEBUG {spanLog origin}: jetspider_codegen::compiler::codegen: closed unit" ++
    s!" instructions={unit.code.size} atoms={unit.atoms.size}\n"

/-- The log lines of the units that are closed before the first failure. -/
def unitLogs : List UnitResult → String
  | ⟨origin, _, .ok unit⟩ :: rest => unitLog origin unit ++ unitLogs rest
  | _ => ""

/-- The log lines of a program that is loaded. -/
def programLog (fold : Bool) (p : Program) : String :=
  s!"DEBUG jetspider: loaded syntax tree filename={p.filename} statements={p.body.length}\n" ++
    s!"DEBUG jetspider: generating object file options=CodegenOptions \x7b fold_constants: {fold} \x7d\n"

/-- The log line of a program that is compiled. -/
def fileLog (filename : String) (file : ObjectFile) : String :=
  "DEBUG jetspider_codegen::compiler::codegen: generated object file" ++
    s!" filename={filename} units={file.units.size}\n"

/-- All log lines of a program. -/
def log (fold : Bool) (p : Program) : String :=
  programLog fold p ++ unitLogs (p.unitResults fold) ++
    match p.compile fold with
    | .ok file => fileLog p.filename file
    | .error _ => ""

/-- The line that reports a failure. -/
def failureLine (settings : Settings) (failure : Failure) : String :=
  let word := if settings.color then Style.bold.paint (Style.red.paint "Error") else "Error"
  s!"{word}: {failure.message settings.input}\n"

/-- Compiles what was read from the input and lists it. -/
def compile (settings : Settings) (source : Except ReadFailure String) : Outcome :=
  match source with
  | .error why => { exitCode := 1, err := failureLine settings (.unreadable why) }
  | .ok text =>
    match Program.parse text with
    | .error fault => { exitCode := 1, err := failureLine settings (.noTree fault) }
    | .ok p =>
      let log := if settings.verbose then log settings.fold p else ""
      match p.compile settings.fold with
      | .error error => { exitCode := 1, err := log ++ failureLine settings (.uncompiled error) }
      | .ok file => { out := file.listing settings.color, err := log }

/-- The text that explains the command line. -/
def helpText : String :=
  "Compiles resolved JavaScript syntax trees to SpiderMonkey-style bytecode

Usage: jetspider [OPTIONS] <INPUT>

Arguments:
  <INPUT>  Syntax tree as JSON, or `-` to read stdin

Options:
      --no-fold   Emit additions of number literals without folding them
      --verbose   Enable verbose logging
      --no-color  Print the listing without colors
  -h, --help      Print help
  -V, --version   Print version
"

/-- Answers arguments. `read` gives the contents of the input that they name. -/
def run {m : Type → Type} [Monad m] (args : List String)
    (read : String → m (Except ReadFailure ByteArray)) : m Outcome :=
  match parse args with
  | .error _ => pure { exitCode := 2 }
  | .ok .help => pure { out := helpText }
  | .ok .version => pure { out := "jetspider 0.1.0\n" }
  | .ok (.compile settings) => do
    let bytes ← read settings.input
    pure (compile settings (bytes.bind decodeText))

end StackCode.CommandLine
