import CestWriter.Emission.Compose
import CestWriter.Emission.Window
import CestWriter.Table

/-! Registries say which emitter writes which command. -/

namespace CestWriter

/-- Writes one step. -/
abbrev Emitter := Setting → Step → Except EmitError Fragment

def Action.emitter (a : Action) : Emitter := fun setting s =>
  (a.compose setting s).map Form.render

/-- Emitters by command name, names ascending. -/
structure Registry where
  emitters : List (String × Emitter)

namespace Registry

def empty : Registry :=
  ⟨[]⟩

/-- A registry with every command of the action table. -/
def builtin : Registry :=
  ⟨Table.ofList (Action.table.map fun (command, a) => (command, a.emitter))⟩

/-- Sets the emitter of a command in place of any other. -/
def register (name : String) (e : Emitter) (r : Registry) : Registry :=
  ⟨Table.set name e r.emitters⟩

def emitter? (r : Registry) (name : String) : Option Emitter :=
  r.emitters.lookup name

def canEmit (r : Registry) (name : String) : Bool :=
  (r.emitter? name).isSome

def names (r : Registry) : List String :=
  r.emitters.map (·.1)

/-- A disabled step as a comment of one line. -/
def disabledComment (s : Step) : String :=
  Text.oneLine (s.command ++ " | " ++ s.target ++ (if s.value.isEmpty then "" else " | " ++ s.value))

/-- Writes a step. A disabled one becomes a comment, and one that opens a window is wrapped. -/
def emit (r : Registry) (setting : Setting) (s : Step) : Except EmitError Fragment :=
  if s.isDisabled then .ok (.statement (disabledComment s))
  else match r.emitter? s.command with
    | none => .error (.unknownCommand s.command)
    | some e => (e setting s).map fun f => if s.opensWindow then Window.wrap s f else f

end Registry

end CestWriter
