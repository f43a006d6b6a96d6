import SeedGrowth.Grammar.Parsing

/-!
# Reports

The texts that the command writes: how it is used, what was wrong with its use,
and what was wrong with an expression. A source that does not match is shown by
its line, without the space at its beginning, and a caret below the column where
the match ended.
-/
namespace SeedGrowth.CommandLine

/-- How the command is used. -/
def usage : String := "usage: leftrec [-h] [-q] [-v] [--capacity CAPACITY] [expression]\n"

/-- What the command does. -/
def helpText : String :=
  usage ++ "
Evaluate an arithmetic expression

positional arguments:
  expression           Expression ('-' to use stdin)

options:
  -h, --help           show this help message and exit
  -q, --quiet          Don't print the value
  -v, --verbose        Print timing stats; repeat to trace guarded rules
  --capacity CAPACITY  Number of recursion flags (a multiple of 64; default
                       64)
"

/-- A wrong use of the command. -/
def usageError (message : String) : String := usage ++ s!"leftrec: error: {message}\n"

/-- The heading of the faults of arithmetic, which the command reports. -/
def arithmeticTitle? : Fault → Option String
  | .zeroDivision _ => some "ZeroDivisionError"
  | .tooLargeForReal | .quotientTooLarge | .countTooLarge | .noInteger true => some "OverflowError"
  | _ => none

/-- Space that the beginning of a line loses. -/
def isIndent (c : Char) : Bool := c = ' ' || c = '\n' || c = '\x0c'

/-- What stands above the caret is replaced by spaces, except for blanks, which
keep their widths. -/
def underline (text : List Char) : List Char :=
  text.map fun c => if Text.isBlank c then c else ' '

/-- The line of a source that does not match, and a caret below the column. There
is no caret for a column in the space that was taken away. -/
def Mismatched.excerpt (place : Mismatched) : String :=
  let whole := (place.text.toList.reverse.dropWhile (· = '\n')).reverse
  let text := whole.dropWhile isIndent
  let indent := whole.length - text.length
  let column := place.column - 1 - indent
  let caret :=
    if column < 0 then ""
    else "    " ++ String.ofList (underline (text.take column.toNat)) ++ "^\n"
  "    " ++ String.ofList text ++ "\n" ++ caret

/-- The report of a source that does not match, under the name the source has for
the command. -/
def Mismatched.report (place : Mismatched) (file : String) : String :=
  s!"  File \"{file}\", line {place.line}\n" ++ Mismatched.excerpt place ++
    s!"SyntaxError: {unmatchedMessage}\n"

/-- The report of a fault that the command expects. -/
def faultReport? (fault : Fault) (file : String) : Option String :=
  match fault with
  | .unmatched place => some (Mismatched.report place file)
  | fault => (arithmeticTitle? fault).map fun title => s!"{title}: {fault.message}\n"

end SeedGrowth.CommandLine
