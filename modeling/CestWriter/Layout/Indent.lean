import CestWriter.Layout.Fragment

/-! Text of placed lines: four blanks for each level, and nothing on a line whose statement is
empty. -/

namespace CestWriter.Line

def margin (level : Nat) : String :=
  String.ofList (List.replicate (4 * level) ' ')

def text (l : Line) : String :=
  if l.statement.isEmpty then "\n" else margin l.level ++ l.statement ++ "\n"

/-- Each line ends with a line feed. -/
def textOf (lines : List Line) : String :=
  String.join (lines.map text)

end CestWriter.Line
