import StackCode.CommandLine

/-!
# The program

Reads the input that the arguments name, prints the outcome and ends with its exit code.

This is all that touches the world. What is read and what is printed passes through functions that
do not.
-/

set_option autoImplicit false

namespace StackCode.CommandLine

/-- The number of a system error, which comes as it is or negated. -/
def errorNumber (code : UInt32) : UInt32 :=
  if code < 0x80000000 then code else 0 - code

/-- Why the system could not read an input. -/
def readFailure : IO.Error → ReadFailure
  | .noFileOrDirectory .. => .missing
  | .inappropriateType _ code _ => if errorNumber code = 20 then .notDirectory else .directory
  | .invalidArgument (some name) code reason =>
    if errorNumber code = 36 then .nameTooLong
    else .other (IO.Error.invalidArgument (some name) code reason).toString
  | error => .other error.toString

/-- Reads a file, or standard input for `-`. -/
def readInput (input : String) : IO (Except ReadFailure ByteArray) := do
  try
    let bytes ← if input = "-" then (← IO.getStdin).readBinToEnd else IO.FS.readBinFile input
    return .ok bytes
  catch error => return .error (readFailure error)

end StackCode.CommandLine

def main (args : List String) : IO UInt32 := do
  let outcome ← StackCode.CommandLine.run args StackCode.CommandLine.readInput
  (← IO.getStderr).putStr outcome.err
  (← IO.getStdout).putStr outcome.out
  return outcome.exitCode
