import CestWriter.Emission.Form
import CestWriter.Recording.Basic

/-! Steps that open a window. The handles of all windows are noted before such a step; afterwards a
helper method of the class waits and returns the handle that is new. -/

namespace CestWriter.Window

open Php (Piece Statement)

def rendered (lines : Form.Lines) : List Line :=
  lines.map fun (level, s) => ⟨level, s.render⟩

/-- Notes the handles of the windows that are open. -/
def snapshot : List Line :=
  rendered (Form.withDriver none [[.slot "windowHandles", .code " = $driver->getWindowHandles();"]])

/-- Waits for the new window and keeps its handle if the step names it. -/
def await (s : Step) : Line :=
  let wait : Statement := [.code "$this->waitForWindow($i, ", .int s.windowWait, .code ")"]
  ⟨0, Statement.render (if s.windowHandleName.isEmpty then wait ++ [.code ";"]
    else Statement.assign s.windowHandleName wait)⟩

/-- The fragment of a step that opens a window: its shifts of level stay as they are. -/
def wrap (s : Step) (f : Fragment) : Fragment :=
  .block ⟨snapshot ++ f.lines ++ [await s], f.before, f.after⟩

def helperName : String := "waitForWindow"

/-- The helper method: sleeps, and compares the handles with those noted before. -/
def helper : List Line :=
  let body : List Line :=
    [⟨0, "usleep($timeout * 1000);"⟩,
      ⟨0, Statement.render [.code "$handlesThen = ", .slot "windowHandles", .code ";"]⟩,
      ⟨0, "$handlesNow = null;"⟩] ++
    rendered (Form.withDriver (some "handlesNow") [[.code "$handlesNow = $driver->getWindowHandles();"]]) ++
    [⟨0, "if (count($handlesNow) > count($handlesThen)) \x7b"⟩,
      ⟨1, "return array_values(array_diff($handlesNow, $handlesThen))[0];"⟩,
      ⟨0, "\x7d"⟩,
      ⟨0, "throw new RuntimeException('New window did not appear before timeout');"⟩]
  ⟨0, "public function " ++ helperName ++ "(AcceptanceTester $i, $timeout = " ++
      toString defaultWindowTimeout ++ ") \x7b"⟩ ::
    body.map (Line.raise 1) ++ [⟨0, "\x7d"⟩]

end CestWriter.Window
