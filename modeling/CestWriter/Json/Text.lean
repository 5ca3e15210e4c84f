import CestWriter.Json.Draft
import CestWriter.Json.Numeral

/-! Reading JSON text. The text must be strict JSON with nothing but blanks around the value. -/

namespace CestWriter.Json

/-- The deepest nesting of containers that has a value. -/
def maxDepth : Nat := 127

def isTextBlank (c : Char) : Bool :=
  c == ' ' || c == '\n' || c == '\t' || c == '\r'

def skipBlank (cs : List Char) : List Char :=
  cs.dropWhile isTextBlank

def hexValue? (c : Char) : Option Nat :=
  if c.isDigit then some (c.toNat - 48)
  else if 'a' ≤ c ∧ c ≤ 'f' then some (c.toNat - 87)
  else if 'A' ≤ c ∧ c ≤ 'F' then some (c.toNat - 55)
  else none

/-- The code of a character that stands after a backslash. -/
def escaped? : Char → Option Nat
  | '"' => some 34
  | '\\' => some 92
  | '/' => some 47
  | 'b' => some 8
  | 'f' => some 12
  | 'n' => some 10
  | 'r' => some 13
  | 't' => some 9
  | _ => none

/-- Takes the inside of a string and its closing quote: the codes it spells, last first, in which
a surrogate can only come from an escape. Control characters are refused. -/
def takeCodes? (done : List Nat) : List Char → Option (List Nat × List Char)
  | '"' :: rest => some (done, rest)
  | '\\' :: 'u' :: a :: b :: c :: d :: rest => do
    let a ← hexValue? a
    let b ← hexValue? b
    let c ← hexValue? c
    let d ← hexValue? d
    takeCodes? ((((a * 16 + b) * 16 + c) * 16 + d) :: done) rest
  | '\\' :: c :: rest =>
    match escaped? c with
    | some n => takeCodes? (n :: done) rest
    | none => none
  | c :: rest => if c.toNat < 32 ∨ c = '\\' then none else takeCodes? (c.toNat :: done) rest
  | [] => none

def isHighSurrogate (n : Nat) : Bool :=
  0xD800 ≤ n && n < 0xDC00

def isLowSurrogate (n : Nat) : Bool :=
  0xDC00 ≤ n && n < 0xE000

/-- Characters of a code sequence given last first; none if a surrogate stands alone. -/
def joinCodes? (done : List Char) : List Nat → Option (List Char)
  | [] => some done
  | n :: rest =>
    if isLowSurrogate n then
      match rest with
      | high :: rest =>
        if isHighSurrogate high then
          joinCodes? (Char.ofNat (0x10000 + (high - 0xD800) * 0x400 + (n - 0xDC00)) :: done) rest
        else none
      | [] => none
    else if isHighSurrogate n then none
    else joinCodes? (Char.ofNat n :: done) rest

/-- Takes a string whose opening quote has been read. The inner option is empty if it has no
value. -/
def takeString? (cs : List Char) : Option (Option String × List Char) :=
  (takeCodes? [] cs).map fun (codes, rest) => ((joinCodes? [] codes).map String.ofList, rest)

/-- A container if it lies within the depth limit and its keys have values. -/
def Draft.container (depth : Nat) (d : Option Draft) : Draft :=
  if depth ≤ maxDepth then d.getD .unusable else .unusable

mutual

/-- Takes one value off the front of a text; `depth` containers are open. Of two nested calls at
least one reads a character, so twice the length of the text is fuel enough. -/
def takeValue? : Nat → Nat → List Char → Option (Draft × List Char)
  | 0, _, _ => none
  | fuel + 1, depth, cs =>
    match skipBlank cs with
    | 'n' :: 'u' :: 'l' :: 'l' :: rest => some (.null, rest)
    | 't' :: 'r' :: 'u' :: 'e' :: rest => some (.bool true, rest)
    | 'f' :: 'a' :: 'l' :: 's' :: 'e' :: rest => some (.bool false, rest)
    | '"' :: rest => (takeString? rest).map fun (s, rest) => ((s.map .string).getD .unusable, rest)
    | '[' :: rest =>
      match skipBlank rest with
      | ']' :: rest => some (Draft.container (depth + 1) (some (.array [])), rest)
      | _ => (takeItems? fuel (depth + 1) [] rest).map fun (items, rest) =>
        (Draft.container (depth + 1) (some (.array items)), rest)
    | '{' :: rest =>
      match skipBlank rest with
      | '}' :: rest => some (Draft.container (depth + 1) (some (.object [])), rest)
      | _ => (takeFields? fuel (depth + 1) (some []) rest).map fun (fields, rest) =>
        (Draft.container (depth + 1) (fields.map .object), rest)
    | cs => (Numeral.take? cs).map fun (n, rest) => ((n.map .number).getD .unusable, rest)

/-- Takes items up to the closing bracket; `done` holds those before, last first. -/
def takeItems? : Nat → Nat → List Draft → List Char → Option (List Draft × List Char)
  | 0, _, _, _ => none
  | fuel + 1, depth, done, cs => do
    let (item, rest) ← takeValue? fuel depth cs
    match skipBlank rest with
    | ',' :: rest => takeItems? fuel depth (item :: done) rest
    | ']' :: rest => some ((item :: done).reverse, rest)
    | _ => none

/-- Takes fields up to the closing brace; `done` is empty once a key without a value was met. -/
def takeFields? : Nat → Nat → Option (List (String × Draft)) → List Char →
    Option (Option (List (String × Draft)) × List Char)
  | 0, _, _, _ => none
  | fuel + 1, depth, done, cs => do
    let (key, rest) ← match skipBlank cs with
      | '"' :: rest => takeString? rest
      | _ => none
    let rest ← match skipBlank rest with
      | ':' :: rest => some rest
      | _ => none
    let (field, rest) ← takeValue? fuel depth rest
    let done := key.bind fun key => done.map ((key, field) :: ·)
    match skipBlank rest with
    | ',' :: rest => takeFields? fuel depth done rest
    | '}' :: rest => some (done.map List.reverse, rest)
    | _ => none

end

/-- Takes one value as written off the front of a text. -/
def Draft.take? (s : String) : Option (Draft × List Char) :=
  takeValue? (2 * s.length + 2) 0 s.toList

/-- Reads a whole text as written. -/
def Draft.ofText? (s : String) : Option Draft :=
  match Draft.take? s with
  | some (d, rest) => if skipBlank rest = [] then some d else none
  | none => none

/-- Reads a whole text as a value. -/
def ofText? (s : String) : Option Json :=
  (Draft.ofText? s).bind Draft.value?

end CestWriter.Json
