import LinearEquations.LabelledMatrix.Basic
import LinearEquations.LinearSystem.Basic

/-! # The command line

The program reads one equation from each line of its input, solves the system, and writes the
solution.  Blank lines are passed over, and lines that are no equations are reported and left
out. -/

namespace LinearEquations.CommandLine

/-! ### Arguments -/

/-- What the arguments ask for. -/
structure Options where
  /-- Write the augmented matrix and its reduced form. -/
  showMatrix : Bool := false
  /-- Report on the work as it goes on. -/
  verbose : Bool := false
  deriving DecidableEq

/-- An argument that turns something on. -/
inductive Flag where
  | showMatrix
  | verbose

namespace Flag

/-- The flag with the given spelling. -/
def ofArgument? : String → Option Flag
  | "--show-matrix" => some .showMatrix
  | "-v" | "--verbose" => some .verbose
  | _ => none

/-- The long spelling of a flag. -/
def name : Flag → String
  | .showMatrix => "--show-matrix"
  | .verbose => "--verbose"

end Flag

namespace Options

/-- Whether a flag is given. -/
def has (o : Options) : Flag → Bool
  | .showMatrix => o.showMatrix
  | .verbose => o.verbose

/-- The options with one flag more. -/
def give (o : Options) : Flag → Options
  | .showMatrix => { o with showMatrix := true }
  | .verbose => { o with verbose := true }

/-- The message for an argument that is no flag. -/
def unexpected (argument : String) : String := "unexpected argument '" ++ argument ++ "' found"

/-- Read one more argument.  No flag is given twice, in whichever spelling. -/
def add (o : Options) (argument : String) : Except String Options :=
  match Flag.ofArgument? argument with
  | none => .error (unexpected argument)
  | some flag =>
    if o.has flag then .error ("the argument '" ++ flag.name ++ "' cannot be used multiple times")
    else .ok (o.give flag)

/-- The argument after which no argument is a flag. -/
def endOfFlags : String := "--"

/-- Read the arguments, or say what is wrong with the first one that is refused. -/
def parse (arguments : List String) : Except String Options := do
  let options ← (arguments.takeWhile (· ≠ endOfFlags)).foldlM add {}
  match (arguments.dropWhile (· ≠ endOfFlags)).drop 1 with
  | [] => return options
  | argument :: _ => .error (unexpected argument)

end Options

/-! ### Runs -/

/-- What a run of the program leaves behind. -/
structure Outcome where
  exitCode : UInt8
  output : String
  errors : String
  deriving DecidableEq

/-- The lines of a text, without their ends: a line feed, or a carriage return and a line feed.  The
last line need not have an end. -/
def lines : List Char → List (List Char)
  | [] => []
  | '\n' :: rest => [] :: lines rest
  | '\r' :: '\n' :: rest => [] :: lines rest
  | [c] => [[c]]
  | c :: d :: rest =>
    match lines (d :: rest) with
    | [] => [[c]]
    | line :: more => (c :: line) :: more

/-- The lines of a text that are not blank. -/
def inputLines (input : String) : List String :=
  ((lines input.toList).filter fun line => !line.all isBlank).map String.ofList

/-- Lines of text, each with its end. -/
def unlines (texts : List String) : String := String.join (texts.map (· ++ "\n"))

variable (R : Type) [Scalar R]

/-- The equations among the given lines. -/
def equations (texts : List String) : List (Equation R) :=
  texts.filterMap fun text => (Equation.parse text).toOption

/-- A report for each line that is no equation. -/
def complaints (texts : List String) : List String :=
  texts.filterMap fun text =>
    match Equation.parse (R := R) text with
    | .ok _ => none
    | .error e => some ("Unable to parse \"" ++ text ++ "\": " ++ e.message)

variable {R}

/-- What is written about a system once it is reduced. -/
def report (options : Options) (s : LinearSystem R) : Except (MatrixError R) (List String) := do
  let reduced ← s.solve
  let augmented ← s.augmentedMatrix
  let solution ← reduced.solution
  let matrices :=
    if options.showMatrix then
      ["Augmented matrix:", augmented.text, "Reduced:", reduced.matrix.text]
    else []
  return matrices ++ "Found:" :: solution.lines.map ("  " ++ ·)

variable (R)

/-- Run the program on an input. -/
def run (options : Options) (input : String) : Outcome :=
  let texts := inputLines input
  let system : LinearSystem R := ⟨equations R texts⟩
  let title := "Solving for " ++ ", ".intercalate system.unknowns
  let complaints := complaints R texts
  match report options system with
  | .ok found => ⟨0, unlines (title :: found), unlines complaints⟩
  | .error e => ⟨1, unlines [title], unlines (complaints ++ ["Error: " ++ e.describe])⟩

end LinearEquations.CommandLine
