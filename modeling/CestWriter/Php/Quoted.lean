/-! Single-quoted PHP literals. In such a literal a backslash and a quote are written with a
backslash before them, and every other character stands for itself.

Prepared text is what may stand between the quotes of a literal. It may leave the literal for a
moment, as in `a' . $this->vars['x'] . 'b`. -/

namespace CestWriter.Php

/-- A backslash before every backslash and every quote. -/
def escapeChars : List Char → List Char
  | [] => []
  | c :: cs => if c = '\\' ∨ c = '\'' then '\\' :: c :: escapeChars cs else c :: escapeChars cs

def escape (s : String) : String :=
  String.ofList (escapeChars s.toList)

/-- The literal whose value is `s`. -/
def literal (s : String) : String :=
  "'" ++ escape s ++ "'"

/-- An empty literal and the operator that joins it to what follows. -/
def emptyFront : List Char :=
  ['\'', '\'', ' ', '.', ' ']

/-- The operator that joins an empty literal to what stands before it, and the literal. -/
def emptyBack : List Char :=
  [' ', '.', ' ', '\'', '\'']

def dropFront (cs : List Char) : List Char :=
  (emptyFront.isPrefixOf? cs).getD cs

def dropBack (cs : List Char) : List Char :=
  (emptyBack.reverse.isPrefixOf? cs.reverse).elim cs List.reverse

/-- Prepared text between quotes, less an empty literal at either end. -/
def quoteChars (prepared : List Char) : List Char :=
  dropBack (dropFront ('\'' :: prepared ++ ['\'']))

/-- The expression that prepared text stands for. -/
def quote (prepared : String) : String :=
  String.ofList (quoteChars prepared.toList)

end CestWriter.Php
