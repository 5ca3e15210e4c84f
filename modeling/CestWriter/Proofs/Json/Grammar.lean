import CestWriter.Proofs.Json.Numeral
import CestWriter.Proofs.Json.String

/-! # The grammar of JSON text

What a text spells is a tree of numerals, strings, arrays and objects. The rules do not invoke the
reader; the reader takes a value off a text just where the rules spell one. -/

namespace CestWriter.Json

/-- JSON as a text spells it: numerals taken apart and strings as codes. -/
inductive Source
  | null
  | bool (b : Bool)
  | numeral (p : Numeral.Parts)
  | string (codes : List Nat)
  | array (items : List Source)
  | object (fields : List (List Nat × Source))

/-- Blanks up to a text that follows them. -/
inductive Blanks : List Char → List Char → Prop
  | nil (rest : List Char) : Blanks rest rest
  | cons {c : Char} {cs rest : List Char} (hc : isTextBlank c = true) (h : Blanks cs rest) :
    Blanks (c :: cs) rest

/-- The key of a field and the colon after it. -/
inductive SpellsKey (codes : List Nat) : List Char → List Char → Prop
  | mk {cs inside mid rest : List Char} (hquote : Blanks cs ('"' :: inside))
      (hcodes : Codes codes inside mid) (hcolon : Blanks mid (':' :: rest)) : SpellsKey codes cs rest

/-- What a rule of the grammar is about: a value, or the items or fields of a container that is not
empty, up to its closing bracket. -/
inductive Phrase
  | value (s : Source)
  | items (ss : List Source)
  | fields (fs : List (List Nat × Source))

/-- The text begins with the phrase, and `rest` follows. -/
inductive Spells : Phrase → List Char → List Char → Prop
  | blank {c : Char} {s cs rest} (hc : isTextBlank c = true) (h : Spells (.value s) cs rest) :
    Spells (.value s) (c :: cs) rest
  | null (rest) : Spells (.value .null) ('n' :: 'u' :: 'l' :: 'l' :: rest) rest
  | boolTrue (rest) : Spells (.value (.bool true)) ('t' :: 'r' :: 'u' :: 'e' :: rest) rest
  | boolFalse (rest) : Spells (.value (.bool false)) ('f' :: 'a' :: 'l' :: 's' :: 'e' :: rest) rest
  | numeral {p : Numeral.Parts} {cs} (rest) (h : p.Spells cs) :
    Spells (.value (.numeral p)) (cs ++ rest) rest
  | string {codes cs rest} (h : Codes codes cs rest) :
    Spells (.value (.string codes)) ('"' :: cs) rest
  | emptyArray {cs rest} (h : Blanks cs (']' :: rest)) : Spells (.value (.array [])) ('[' :: cs) rest
  | array {items cs rest} (h : Spells (.items items) cs rest) :
    Spells (.value (.array items)) ('[' :: cs) rest
  | emptyObject {cs rest} (h : Blanks cs ('\x7d' :: rest)) :
    Spells (.value (.object [])) ('\x7b' :: cs) rest
  | object {fields cs rest} (h : Spells (.fields fields) cs rest) :
    Spells (.value (.object fields)) ('\x7b' :: cs) rest
  | lastItem {s cs mid rest} (h : Spells (.value s) cs mid) (hend : Blanks mid (']' :: rest)) :
    Spells (.items [s]) cs rest
  | item {s ss cs mid next rest} (h : Spells (.value s) cs mid) (hcomma : Blanks mid (',' :: next))
      (hrest : Spells (.items ss) next rest) : Spells (.items (s :: ss)) cs rest
  | lastField {codes s cs inside mid rest} (hkey : SpellsKey codes cs inside)
      (h : Spells (.value s) inside mid) (hend : Blanks mid ('\x7d' :: rest)) :
      Spells (.fields [(codes, s)]) cs rest
  | field {codes s fs cs inside mid next rest} (hkey : SpellsKey codes cs inside)
      (h : Spells (.value s) inside mid) (hcomma : Blanks mid (',' :: next))
      (hrest : Spells (.fields fs) next rest) : Spells (.fields ((codes, s) :: fs)) cs rest

/-- A whole text that is JSON: a value with nothing but blanks after it. -/
def IsText (s : String) (source : Source) : Prop :=
  ∃ mid, Spells (.value source) s.toList mid ∧ Blanks mid []

/-! ## Drafts of sources -/

/-- The text of a string; none if half a surrogate pair stands alone. -/
def textOf? (codes : List Nat) : Option String :=
  (joinCodes? [] codes.reverse).map String.ofList

mutual

/-- What is read from a source in `depth` containers. -/
def Source.draft (depth : Nat) : Source → Draft
  | .null => .null
  | .bool b => .bool b
  | .numeral p => (p.number?.map .number).getD .unusable
  | .string codes => ((textOf? codes).map .string).getD .unusable
  | .array items => .container (depth + 1) (some (.array (Source.drafts (depth + 1) items)))
  | .object fields => .container (depth + 1) ((Source.fieldDrafts? (depth + 1) fields).map .object)

def Source.drafts (depth : Nat) : List Source → List Draft
  | [] => []
  | s :: rest => s.draft depth :: Source.drafts depth rest

/-- None if a key has no text. -/
def Source.fieldDrafts? (depth : Nat) : List (List Nat × Source) → Option (List (String × Draft))
  | [] => some []
  | (codes, s) :: rest => (textOf? codes).bind fun key =>
    (Source.fieldDrafts? depth rest).map ((key, s.draft depth) :: ·)

end

end CestWriter.Json
