import LinearEquations.CommandLine
import LinearEquations.Scalar.Double

/-! # The program

Standard input and output around `CommandLine.run`, with doubles as scalars. -/

open LinearEquations

/-- Read all of a stream. -/
partial def readAll (stream : IO.FS.Stream) (read : ByteArray) : IO ByteArray := do
  let chunk ← stream.read 65536
  if chunk.isEmpty then return read else readAll stream (read ++ chunk)

/-- Solve the equations on standard input. -/
def main (args : List String) : IO UInt32 := do
  match CommandLine.Options.parse args with
  | .error message =>
    IO.eprintln ("error: " ++ message)
    return 2
  | .ok options =>
    let bytes ← readAll (← IO.getStdin) ByteArray.empty
    match String.fromUTF8? bytes with
    | none =>
      IO.eprintln "error: the input is not valid UTF-8"
      return 1
    | some input =>
      let outcome := CommandLine.run Float options input
      IO.print outcome.output
      IO.eprint outcome.errors
      return outcome.exitCode.toUInt32
