import CestWriter.Json.Record

/-! What a step is written as: a single statement, or lines with relative levels that may also shift
the level around them. -/

namespace CestWriter

/-- A statement at a level relative to its surroundings. A level is a number of 64 bits. Sums of levels
are not cut to this size: what is said of them holds where they keep to it. -/
structure Line where
  level : Nat
  statement : String
  deriving DecidableEq

def Line.raise (n : Nat) (l : Line) : Line :=
  ⟨l.level + n, l.statement⟩

/-- Lines, and how the level around them changes before and after them. -/
structure Block where
  lines : List Line
  before : Int
  after : Int
  deriving DecidableEq

/-- Adds a line at the end unless its statement is empty. -/
def Block.push (b : Block) (l : Line) : Block :=
  if l.statement.isEmpty then b else { b with lines := b.lines ++ [l] }

/-- The empty statement is the fragment that does nothing. -/
inductive Fragment
  | statement (text : String)
  | block (b : Block)
  deriving DecidableEq

namespace Fragment

def before : Fragment → Int
  | statement _ => 0
  | block b => b.before

def after : Fragment → Int
  | statement _ => 0
  | block b => b.after

/-- The change of level over the whole fragment. -/
def net (f : Fragment) : Int :=
  f.before + f.after

/-- No lines and no change of level. -/
def isEmpty : Fragment → Bool
  | statement s => s.isEmpty
  | block b => b.lines.isEmpty && b.before == 0 && b.after == 0

def lines : Fragment → List Line
  | statement s => if s.isEmpty then [] else [⟨0, s⟩]
  | block b => b.lines

end Fragment

open Json (Codec Record)

def Line.shape : Record Line where
  name := "Line"
  blank := ⟨0, ""⟩
  fields := [
    Codec.size.required "level" (·.level) fun x v => { x with level := v },
    Codec.string.required "statement" (·.statement) fun x v => { x with statement := v }]

def Block.shape : Record Block where
  name := "Block"
  blank := ⟨[], 0, 0⟩
  fields := [
    Line.shape.codec.list.required "lines" (·.lines) fun x v => { x with lines := v },
    Codec.signed32.required "starting_level_adjustment" (·.before) fun x v => { x with before := v },
    Codec.signed32.required "ending_level_adjustment" (·.after) fun x v => { x with after := v }]

end CestWriter
