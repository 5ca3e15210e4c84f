import CestWriter.ClassFile.Body

/-! The methods of a class. Each member test gives a test method. The tests that these run, and the
tests that those run in turn, give one helper method each, in the order in which they are met. -/

namespace CestWriter

structure Method where
  name : String
  body : List Line
  deriving DecidableEq

def Method.lines (m : Method) : List Line :=
  ⟨0, "public function " ++ m.name ++ "(AcceptanceTester $i) \x7b"⟩ ::
    m.body.map (Line.raise 1) ++ [⟨0, "\x7d"⟩]

/-- A class under construction. `helpers` are the helper methods met so far and the places of their
tests in the pool. -/
structure Class where
  methods : List Method
  helpers : List (String × Nat)
  opensWindow : Bool

namespace Class

def empty : Class :=
  ⟨[], [], false⟩

def declares (c : Class) (name : String) : Bool :=
  c.methods.any (·.name == name)

/-- Notes that the pool test at `i` is run. Two tests cannot share a helper method. -/
def noteRun (pool : List Test) (c : Class) (i : Nat) : Except ExportError Class :=
  let testName := (pool[i]?.getD .blank).name
  let name := Identifier.helperName testName
  match c.helpers.lookup name with
  | some j => if i = j then .ok c else .error (.invalidName testName)
  | none => .ok { c with helpers := c.helpers ++ [(name, i)] }

/-- Adds a method whose name is still free. The tests that it runs are noted first, as far as the
body goes, and then a fault of the body counts. -/
def addMethod (pool : List Test) (name testName : String) (b : Body) (c : Class) :
    Except ExportError Class := do
  if c.declares name then throw (.invalidName testName)
  let c ← b.runs.foldlM (noteRun pool) c
  match b.fault with
  | some fault => throw fault
  | none =>
    return { c with methods := c.methods ++ [⟨name, b.lines⟩], opensWindow := c.opensWindow || b.opensWindow }

end Class

namespace Exporter

def addMember (e : Exporter) (pool : List Test) (options : RenderOptions) (c : Class) (t : Test) :
    Except ExportError Class :=
  if (Identifier.sanitize t.name).isEmpty then .error (.invalidName t.name)
  else c.addMethod pool (Identifier.testMethodName t.name) t.name (e.body pool options t)

/-- Adds the helper methods from the `k`-th on, those met on the way included. No test of the pool
is met twice, so the size of the pool is fuel enough. -/
def addHelpers (e : Exporter) (pool : List Test) (options : RenderOptions) :
    Nat → Nat → Class → Except ExportError Class
  | 0, _, c => .ok c
  | fuel + 1, k, c =>
    match c.helpers[k]? with
    | none => .ok c
    | some (name, i) => do
      let t := pool[i]?.getD .blank
      let c ← c.addMethod pool name t.name (e.body pool options t)
      addHelpers e pool options fuel (k + 1) c

/-- The methods of a class with the given member tests. -/
def assemble (e : Exporter) (name : String) (members pool : List Test) (options : RenderOptions) :
    Except ExportError Class := do
  if (Identifier.sanitize name).isEmpty then throw (.invalidName name)
  let c ← members.foldlM (e.addMember pool options) .empty
  let c ← e.addHelpers pool options pool.length 0 c
  if c.opensWindow && c.declares Window.helperName then throw (.invalidName Window.helperName)
  return c

end Exporter

end CestWriter
