import CestWriter.Text.NameChar

/-! Recorded arguments refer to stored variables by `${name}`. An argument is split into literal
runs and references. -/

namespace CestWriter

inductive Segment
  | literal (text : String)
  | reference (name : String)
  deriving DecidableEq

namespace Segment

/-- The name of a reference that begins here. -/
def nameAt? : List Char → Option (List Char)
  | '$' :: '{' :: rest =>
    match rest.takeWhile Text.isNameChar, rest.dropWhile Text.isNameChar with
    | c :: cs, '}' :: _ => some (c :: cs)
    | _, _ => none
  | _ => none

/-- A literal of the characters collected so far, last first, if there are any. -/
def flush : List Char → List Segment
  | [] => []
  | cs => [literal (String.ofList cs.reverse)]

/-- Splits a text of which the first `skip` characters belong to the segment before. A `${` that
opens no reference ends the literal run it stands in. -/
def split : Nat → List Char → List Char → List Segment
  | _, run, [] => flush run
  | skip + 1, run, _ :: cs => split skip run cs
  | 0, run, c :: cs =>
    match nameAt? (c :: cs) with
    | some name => flush run ++ reference (String.ofList name) :: split (name.length + 2) [] cs
    | none =>
      if c = '$' ∧ cs.head? = some '{' then flush ('{' :: '$' :: run) ++ split 1 [] cs
      else split 0 (c :: run) cs

/-- The literal runs and references of a recorded argument, in order. -/
def ofText (raw : String) : List Segment :=
  split 0 [] raw.toList

end Segment

end CestWriter
