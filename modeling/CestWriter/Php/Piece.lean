import CestWriter.Php.Quoted
import CestWriter.Php.Slot

/-! Generated statements in pieces. Only fixed code stands for itself; what comes from a recording
goes into a literal, names a slot, or is a number. -/

namespace CestWriter.Php

inductive Piece
  /-- Fixed code of a statement form. -/
  | code (text : String)
  /-- The expression that prepared text stands for. -/
  | quoted (prepared : String)
  /-- The literal with this value. -/
  | literal (value : String)
  /-- Reads a stored variable. -/
  | slot (name : String)
  | int (n : Int)
  /-- A method name or a constant name. -/
  | word (name : String)
  /-- An expression made elsewhere, taken as it is. -/
  | expression (text : String)

def Piece.render : Piece → String
  | .code text => text
  | .quoted prepared => quote prepared
  | .literal value => Php.literal value
  | .slot name => Php.slot name
  | .int n => toString n
  | .word name => name
  | .expression text => text

abbrev Statement := List Piece

namespace Statement

def render (s : Statement) : String :=
  String.join (s.map Piece.render)

/-- Pieces with a comma and a blank between them. -/
def commas (args : List Statement) : Statement :=
  (args.intersperse [.code ", "]).flatten

/-- A call of a method of the acting tester. -/
def act (method : String) (args : List Statement) : Statement :=
  [.code "$i->", .code method, .code "("] ++ commas args ++ [.code ");"]

/-- Stores a value under a name; under an empty name there is nothing to do. -/
def assign (name : String) (value : Statement) : Statement :=
  if name.isEmpty then [] else .slot name :: .code " = " :: value ++ [.code ";"]

end Statement

end CestWriter.Php
