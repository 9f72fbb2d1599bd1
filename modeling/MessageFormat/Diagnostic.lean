import MessageFormat.Pattern.Error

/-! How an error of a pattern is shown to people: the number of the line, the line, a caret with a line
under the fault, and what is wrong. -/

namespace MessageFormat.Diagnostic

/-- The lines of a text. A line ends with a line feed, and a carriage return right before the line feed
belongs to the end; what follows the last line feed is a line if it is not empty. -/
def lines : List Char → List (List Char)
  | [] => []
  | '\n' :: s => [] :: lines s
  | '\r' :: '\n' :: s => [] :: lines s
  | c :: s =>
    match lines s with
    | [] => [[c]]
    | l :: ls => (c :: l) :: ls

/-- The column behind the line under a fault. A fault that goes on in another line, or that has no extent,
is shown up to the end of its line. -/
def endColumn (lineLength : Nat) (e : Pattern.Error) : Nat :=
  if e.start.line = e.stop.line ∧ e.start.column < e.stop.column then e.stop.column
  else if e.start.column < lineLength then lineLength
  else e.start.column + 1

/-- The caret under the beginning of a fault and the line under the rest of it. -/
def underline (line : List Char) (e : Pattern.Error) : List Char :=
  List.replicate e.start.column ' ' ++
    '^' :: List.replicate (endColumn line.length e - e.start.column - 1) '_'

/-- The text for an error of the pattern `pattern`. -/
def report (pattern : String) (e : Pattern.Error) : String :=
  let line := ((lines pattern.toList)[e.start.line]?).getD []
  "ERROR AT LINE " ++ (e.start.line + 1).repr ++ ":\n" ++
    .ofList line ++ "\n" ++
    .ofList (underline line e) ++ "\n" ++
    e.cause.message ++ " (" ++ e.cause.code ++ ")\n\n"

end MessageFormat.Diagnostic
