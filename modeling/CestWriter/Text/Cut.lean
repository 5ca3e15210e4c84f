/-! Cutting texts at a character, taking off a known beginning, and flattening to one line. -/

namespace CestWriter.Text

/-- What stands before and after the first `c`; none when there is no `c`. -/
def cutChars? (c : Char) : List Char → Option (List Char × List Char)
  | [] => none
  | x :: xs =>
    if x = c then some ([], xs)
    else (cutChars? c xs).map fun (before, after) => (x :: before, after)

def cut? (c : Char) (s : String) : Option (String × String) :=
  (cutChars? c s.toList).map fun (before, after) => (String.ofList before, String.ofList after)

/-- What stands before and after the last `c`. -/
def cutLast? (c : Char) (s : String) : Option (String × String) :=
  (cutChars? c s.toList.reverse).map fun (after, before) =>
    (String.ofList before.reverse, String.ofList after.reverse)

/-- The parts of a text between the characters `c`, of which there is one more than of these. -/
def splitChars (c : Char) : List Char → List (List Char)
  | [] => [[]]
  | x :: xs =>
    match splitChars c xs with
    | part :: parts => if x = c then [] :: part :: parts else (x :: part) :: parts
    | [] => [[x]]

def split (c : Char) (s : String) : List String :=
  (splitChars c s.toList).map String.ofList

def startsWith (lead s : String) : Bool :=
  lead.toList.isPrefixOf s.toList

/-- The rest of `s` after `lead`, if `s` begins with it. -/
def after? (lead s : String) : Option String :=
  (lead.toList.isPrefixOf? s.toList).map String.ofList

/-- Line ends become blanks, one for one. -/
def oneLine (s : String) : String :=
  String.ofList (s.toList.map fun c => if c = '\r' ∨ c = '\n' then ' ' else c)

end CestWriter.Text
