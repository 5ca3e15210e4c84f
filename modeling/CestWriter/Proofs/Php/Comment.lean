import CestWriter.Proofs.Text.Lead

/-! # One-line comments, as PHP reads them

Two slashes start a comment up to the end of the line. A tag that ends the code ends the comment
too, and what follows the tag is output as it stands. -/

namespace CestWriter.Php

/-- The tag that ends the code stands in the text. -/
def ClosesCode (cs : List Char) : Prop :=
  ['?', '>'] <:+: cs

def EndsLine (cs : List Char) : Prop :=
  '\r' ∈ cs ∨ '\n' ∈ cs

/-- A line end, or the tag that ends the code, stands in the text. -/
def EndsComment (cs : List Char) : Prop :=
  EndsLine cs ∨ ClosesCode cs

/-- What a comment leaves of the text after its slashes. -/
def afterComment : List Char → List Char
  | [] => []
  | '?' :: '>' :: rest => '?' :: '>' :: rest
  | c :: rest => if c = '\r' ∨ c = '\n' then c :: rest else afterComment rest

/-- One comment from the first character to the last. -/
def IsComment (s : String) : Prop :=
  ∃ rest, s.toList = '/' :: '/' :: rest ∧ afterComment rest = []

/-! ## The tag in longer texts -/

theorem not_closesCode_nil : ¬ ClosesCode [] := by
  simp [ClosesCode]

/-- A character of neither half keeps a tag out of the place where it stands. -/
theorem closesCode_append_cons {c : Char} (hc : c ≠ '?' ∧ c ≠ '>') {xs ys : List Char} :
    ClosesCode (xs ++ c :: ys) ↔ ClosesCode xs ∨ ClosesCode ys := by
  have hlead : ∀ l, l <+: c :: ys → l <:+ ['?', '>'] → l = [] := by
    intro l hl htag
    cases l with
    | nil => rfl
    | cons d l =>
        obtain ⟨rfl, -⟩ := List.cons_prefix_cons.mp hl
        have hmem : d ∈ ['?', '>'] := htag.subset List.mem_cons_self
        simp [hc] at hmem
  have hbehind : ClosesCode (c :: ys) ↔ ClosesCode ys := by
    rw [ClosesCode, List.infix_cons_iff, List.cons_prefix_cons]
    simp [hc.1.symm, ClosesCode]
  rw [ClosesCode, List.infix_append_iff]
  constructor
  · rintro (h | h | ⟨l, l', htag, hl, hl'⟩)
    · exact .inl h
    · exact .inr (hbehind.mp h)
    · obtain rfl := hlead l' hl' ⟨l, htag.symm⟩
      left
      rw [ClosesCode, htag, List.append_nil]
      exact hl.isInfix
  · rintro (h | h)
    · exact .inl h
    · exact .inr (.inl (hbehind.mpr h))

theorem closesCode_cons {c : Char} (hc : c ≠ '?' ∧ c ≠ '>') {cs : List Char} :
    ClosesCode (c :: cs) ↔ ClosesCode cs := by
  have h : ClosesCode ([] ++ c :: cs) ↔ ClosesCode [] ∨ ClosesCode cs := closesCode_append_cons hc
  simpa [not_closesCode_nil] using h

/-- A tag has a question mark. -/
theorem not_closesCode {cs : List Char} (h : '?' ∉ cs) : ¬ ClosesCode cs :=
  fun htag => h (htag.subset List.mem_cons_self)

/-! ## Reading a comment -/

/-- Nothing is left of a comment if neither a line end nor a tag stands in it, and only then. -/
theorem afterComment_eq_nil_iff {cs : List Char} : afterComment cs = [] ↔ ¬ EndsComment cs := by
  fun_induction afterComment cs with
  | case1 => simp [EndsComment, EndsLine, not_closesCode_nil]
  | case2 rest =>
      have htag : ClosesCode ('?' :: '>' :: rest) := ⟨[], rest, rfl⟩
      simp [EndsComment, htag]
  | case3 c rest _ hend =>
      rcases hend with rfl | rfl <;> simp [EndsComment, EndsLine]
  | case4 c rest hpair hend ih =>
      have hskip : ClosesCode (c :: rest) ↔ ClosesCode rest := by
        rw [ClosesCode, List.infix_cons_iff]
        refine or_iff_right fun hlead => ?_
        obtain ⟨rfl, hrest⟩ := List.cons_prefix_cons.mp hlead
        obtain ⟨after, rfl⟩ := hrest
        exact hpair after rfl rfl
      obtain ⟨hr, hn⟩ := not_or.mp hend
      rw [ih, EndsComment, EndsComment, hskip]
      simp [EndsLine, Ne.symm hr, Ne.symm hn]

/-- A comment to its end starts with slashes and has nothing in it that ends it. -/
theorem isComment_iff {s : String} :
    IsComment s ↔ Text.startsWith "//" s = true ∧ ¬ EndsComment s.toList := by
  have hslashes (rest : List Char) : EndsComment ('/' :: '/' :: rest) ↔ EndsComment rest := by
    simp [EndsComment, EndsLine, closesCode_cons]
  rw [Text.startsWith_iff]
  constructor
  · rintro ⟨rest, hs, hrest⟩
    rw [hs, hslashes]
    exact ⟨⟨rest, rfl⟩, afterComment_eq_nil_iff.mp hrest⟩
  · rintro ⟨⟨rest, hs⟩, hends⟩
    have hs : s.toList = '/' :: '/' :: rest := hs
    rw [hs, hslashes] at hends
    exact ⟨rest, hs, afterComment_eq_nil_iff.mpr hends⟩

/-! ## One line of a text -/

theorem not_endsLine_oneLine (s : String) : ¬ EndsLine (Text.oneLine s).toList := by
  have hgone (d : Char) (hd : d = '\r' ∨ d = '\n') : d ∉ (Text.oneLine s).toList := by
    rw [Text.toList_oneLine, List.mem_map]
    rintro ⟨c, -, rfl⟩
    split at hd
    · simp at hd
    · contradiction
  exact not_or.mpr ⟨hgone '\r' (.inl rfl), hgone '\n' (.inr rfl)⟩

/-- A text on one line has the tags that it had before. -/
theorem closesCode_oneLine {s : String} :
    ClosesCode (Text.oneLine s).toList ↔ ClosesCode s.toList := by
  have hkept (c d : Char) (hd : d ≠ ' ') (hline : d ≠ '\r' ∧ d ≠ '\n') :
      d = (if c = '\r' ∨ c = '\n' then ' ' else c) ↔ d = c := by
    split
    · rename_i hc
      rcases hc with rfl | rfl <;> simp [hd, hline]
    · rfl
  rw [Text.toList_oneLine, ClosesCode, List.infix_map_iff]
  constructor
  · rintro ⟨l, hl, he⟩
    obtain ⟨a, b, rfl⟩ : ∃ a b, l = [a, b] := by
      rw [← List.length_eq_two]
      simpa using (congrArg List.length he).symm
    simp only [List.map_cons, List.map_nil, List.cons.injEq, and_true] at he
    rw [hkept a '?' (by decide) (by decide), hkept b '>' (by decide) (by decide)] at he
    obtain ⟨rfl, rfl⟩ := he
    exact hl
  · intro h
    exact ⟨['?', '>'], h, rfl⟩

end CestWriter.Php
