import CestWriter.Layout.Fragment
import CestWriter.Php.Piece

/-! What an action is written as, before its pieces become text. -/

namespace CestWriter

open Php (Piece Statement)

/-- Statements at relative levels. -/
abbrev Form.Lines := List (Nat × Statement)

/-- A fragment whose statements are still in pieces. -/
inductive Form
  | statement (s : Statement)
  | block (lines : Form.Lines) (before after : Int)

namespace Form

def render : Form → Fragment
  | statement s => .statement s.render
  | block lines before after =>
    .block ⟨lines.map fun (level, s) => ⟨level, s.render⟩, before, after⟩

/-- Lines that leave the level around them alone. -/
def flat (lines : Lines) : Form :=
  block lines 0 0

/-- A call of a method of the acting tester. -/
def act (method : String) (args : List Statement) : Form :=
  statement (Statement.act method args)

/-- A closure that is given the browser driver; `shared` is a local variable it may set. -/
def withDriver (shared : Option String) (body : List Statement) : Lines :=
  let opening : Statement := match shared with
    | some temporary =>
      [.code "$i->executeInSelenium(function (RemoteWebDriver $driver) use (&$", .code temporary,
        .code ") \x7b"]
    | none => [.code "$i->executeInSelenium(function (RemoteWebDriver $driver) \x7b"]
  (0, opening) :: body.map ((1, ·)) ++ [(0, [.code "\x7d);"])]

/-- Reads a value through the driver into a local variable and stores it under `name`; an empty
name stores nothing. -/
def capture (temporary : String) (value : Statement) (name : String) : Form :=
  flat ((0, [.code "$", .code temporary, .code " = null;"]) ::
    withDriver (some temporary) [[.code "$", .code temporary, .code " = "] ++ value ++ [.code ";"]] ++
    if name.isEmpty then []
    else [(0, Statement.assign name [.code "$", .code temporary])])

/-- The local variable `$element` set to an element of the page. -/
def findElement (element : String) : Statement :=
  [.code "$element = $driver->findElement(", .expression element, .code ");"]

/-- The same from outside of the closure. -/
def fetchElement (element : String) : Lines :=
  (0, [.code "$element = null;"]) :: withDriver (some "element") [findElement element]

end Form

end CestWriter
