import CestWriter.Recording.Segment
import CestWriter.Php.Quoted
import CestWriter.Php.Slot
import CestWriter.Text.Cut

/-! What a recorded argument becomes, after its meaning: text, a script or a sequence of keys. -/

namespace CestWriter

/-- A script with its references made positional, and the names in the order of the positions. -/
structure Script where
  script : String
  argv : List String
  deriving DecidableEq

/-- One item of a key sequence. -/
inductive KeyPart
  | text (text : String)
  | variable (name : String)
  | key (name : String)
  deriving DecidableEq

namespace Argument

/-- Prepared text of a segment: a literal is escaped, and a reference leaves the literal to read its
slot. -/
def segmentText : Segment → String
  | .literal s => Php.escape s
  | .reference name => "' . " ++ Php.slot name ++ " . '"

/-- Prepared text of a recorded argument. -/
def text (raw : String) : String :=
  String.join ((Segment.ofText raw).map segmentText)

/-- Extends a script by a segment: a reference becomes the position of its name, and a new name is
added at the end. -/
def extendScript (s : Script) : Segment → Script
  | .literal text => ⟨s.script ++ text, s.argv⟩
  | .reference name =>
    ⟨s.script ++ "arguments[" ++ toString (s.argv.idxOf name) ++ "]",
      if name ∈ s.argv then s.argv else s.argv ++ [name]⟩

def script (raw : String) : Script :=
  (Segment.ofText raw).foldl extendScript ⟨"", []⟩

/-- References whose names begin with `KEY_` are special keys. -/
def keyPart : Segment → KeyPart
  | .literal s => .text s
  | .reference name =>
    match Text.after? "KEY_" name with
    | some key => .key key
    | none => .variable name

def keys (raw : String) : List KeyPart :=
  (Segment.ofText raw).map keyPart

end Argument

end CestWriter
