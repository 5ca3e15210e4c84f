import CestWriter.Proofs.Recording.Discovery
import CestWriter.Proofs.Recording.Names

/-! # References become positions

A script refers to its arguments by their positions. The names are noted in order while the script
is put together, so a position that is written early must still hold when all names are noted. -/

namespace CestWriter

/-- The names that tokens refer to, one for each reference. -/
def Token.names (ts : List Token) : List String :=
  ts.filterMap fun
    | .char _ => none
    | .reference name => some name

/-- What a token becomes in a script with these arguments: a character stays, and a reference is
written as a position that holds its name. -/
inductive Token.Becomes (argv : List String) : Token → List Char → Prop
  | char (c : Char) : Becomes argv (.char c) [c]
  | reference {name : String} {i : Nat} (h : argv[i]? = some name) :
    Becomes argv (.reference name) ("arguments[" ++ toString i ++ "]").toList

/-- A script is made of what the tokens become, one after another. -/
def Positional (argv : List String) (ts : List Token) (script : List Char) : Prop :=
  ∃ pieces, List.Forall₂ (Token.Becomes argv) ts pieces ∧ script = pieces.flatten

namespace Positional

variable {argv argv' : List String} {ts us : List Token} {script script' : List Char}

theorem nil (argv : List String) : Positional argv [] [] :=
  ⟨[], .nil, rfl⟩

theorem append (h : Positional argv ts script) (h' : Positional argv us script') :
    Positional argv (ts ++ us) (script ++ script') := by
  obtain ⟨pieces, hpieces, rfl⟩ := h
  obtain ⟨pieces', hpieces', rfl⟩ := h'
  exact ⟨pieces ++ pieces', List.rel_append hpieces hpieces', List.flatten_append.symm⟩

theorem chars (argv : List String) (cs : List Char) :
    Positional argv (cs.map .char) cs := by
  refine ⟨cs.map ([·]), ?_, by simp [← List.flatMap_def]⟩
  rw [List.forall₂_map_left_iff, List.forall₂_map_right_iff]
  exact List.forall₂_same.mpr fun c _ => .char c

/-- Names that are noted later leave the positions as they are. -/
theorem mono (hp : argv <+: argv') (h : Positional argv ts script) :
    Positional argv' ts script := by
  obtain ⟨pieces, hpieces, rfl⟩ := h
  refine ⟨pieces, hpieces.imp fun t piece ht => ?_, rfl⟩
  cases ht with
  | char c => exact .char c
  | @reference name i hi =>
      obtain ⟨later, rfl⟩ := hp
      apply Token.Becomes.reference
      rw [List.getElem?_append_left (List.getElem?_eq_some_iff.mp hi).1, hi]

end Positional

namespace Argument

/-- A segment adds to the script what its tokens become, and notes its name if it is new. -/
theorem extendScript_positional (s : Script) (segment : Segment) {noted : List String}
    (h : s.argv = noted.eraseDups) :
    (extendScript s segment).argv = (noted ++ Token.names segment.tokens).eraseDups ∧
      ∃ script, Positional (extendScript s segment).argv segment.tokens script ∧
        (extendScript s segment).script.toList = s.script.toList ++ script := by
  cases segment with
  | literal text =>
      have hnames : Token.names (Segment.literal text).tokens = [] := by
        simp [Token.names, Segment.tokens]
      refine ⟨by rw [hnames, List.append_nil]; exact h, text.toList, ?_, ?_⟩
      · exact .chars _ _
      · simp [extendScript]
  | reference name =>
      have hmem : name ∈ s.argv ↔ name ∈ noted := by rw [h, List.mem_eraseDups]
      have hat : (extendScript s (.reference name)).argv[s.argv.idxOf name]? = some name := by
        by_cases hm : name ∈ s.argv <;> simp [extendScript, hm]
      refine ⟨?_, _, ⟨[_], .cons (.reference hat) .nil, rfl⟩, ?_⟩
      · change _ = (noted ++ [name]).eraseDups
        rw [eraseDups_concat, ← h]
        simp [extendScript, hmem]
      · simp [extendScript]

theorem foldl_extendScript_positional (segments : List Segment) (s : Script) {noted : List String}
    (h : s.argv = noted.eraseDups) :
    (segments.foldl extendScript s).argv =
        (noted ++ Token.names (segments.flatMap Segment.tokens)).eraseDups ∧
      ∃ script, Positional (segments.foldl extendScript s).argv
          (segments.flatMap Segment.tokens) script ∧
        (segments.foldl extendScript s).script.toList = s.script.toList ++ script := by
  induction segments generalizing s noted with
  | nil => exact ⟨by simpa [Token.names] using h, [], .nil _, by simp⟩
  | cons segment segments ih =>
      obtain ⟨hargv, script, hscript, htext⟩ := extendScript_positional s segment h
      obtain ⟨hall, rest, hrest, htail⟩ := ih (extendScript s segment) hargv
      have hprefix : (extendScript s segment).argv <+:
          (segments.foldl extendScript (extendScript s segment)).argv := by
        rw [hall, hargv]
        exact eraseDups_prefix_append ..
      refine ⟨?_, script ++ rest, ?_, ?_⟩
      · simpa [Token.names, List.filterMap_append] using hall
      · exact (hscript.mono hprefix).append hrest
      · rw [List.foldl_cons, htail, htext, List.append_assoc]

/-- The script of a recorded argument is its text with a position for every reference. Its arguments
are the names, each once, in the order of their first occurrence. -/
theorem script_positional {raw : String} {ts : List Token} (h : Tokens raw.toList ts) :
    (script raw).argv = (Token.names ts).eraseDups ∧
      Positional (script raw).argv ts (script raw).script.toList := by
  have hempty : (⟨"", []⟩ : Script).argv = ([] : List String).eraseDups := rfl
  obtain ⟨hargv, text, hpositional, htext⟩ :=
    foldl_extendScript_positional (Segment.ofText raw) _ hempty
  rw [(Segment.tokens_iff raw ts).mp h] at hargv hpositional
  rw [List.nil_append] at hargv
  refine ⟨hargv, ?_⟩
  rw [script, htext]
  simpa using hpositional

end Argument

end CestWriter
