import CestWriter.Proofs.Php.Expression
import CestWriter.Proofs.Recording.Token
import CestWriter.Recording.Argument

/-! # Interpolation keeps the meaning of a recorded argument -/

namespace CestWriter

open Php

/-! ## Prepared text, token by token -/

/-- Prepared text of one token: a character escaped, or a break in the literal around a slot. -/
def Token.text : Token → List Char
  | .char c => escapeChars [c]
  | .reference name =>
      ['\'', ' ', '.', ' '] ++ Operand.slotFront ++ name.toList ++ ['\'', ']', ' ', '.', ' ', '\'']

theorem flatMap_text_chars (cs : List Char) :
    (cs.map Token.char).flatMap Token.text = escapeChars cs := by
  induction cs with
  | nil => rfl
  | cons c cs ih =>
      rw [List.map_cons, List.flatMap_cons, ih, Token.text, ← escapeChars_append]
      rfl

theorem Segment.toList_segmentText (s : Segment) :
    (Argument.segmentText s).toList = s.tokens.flatMap Token.text := by
  cases s with
  | literal s => simp [Argument.segmentText, escape, Segment.tokens, flatMap_text_chars]
  | reference name =>
      simp [Argument.segmentText, slot, Segment.tokens, Token.text, Operand.slotFront]

theorem Argument.toList_text {raw : String} {ts : List Token} (h : Tokens raw.toList ts) :
    (Argument.text raw).toList = ts.flatMap Token.text := by
  rw [← (Segment.tokens_iff raw ts).mp h]
  simp only [Argument.text, String.toList_join, List.flatMap_map, List.flatMap_assoc,
    Segment.toList_segmentText]

/-! ## The operands between the quotes -/

/-- The value of the literal that is open where the tokens begin, and the operands after it. -/
def Token.runs : List Token → List Char × List Operand
  | [] => ([], [])
  | .char c :: ts => (c :: (runs ts).1, (runs ts).2)
  | .reference name :: ts => ([], .slot name.toList :: .literal (runs ts).1 :: (runs ts).2)

/-- The concatenation that the tokens stand for, with an empty literal wherever a reference has no
character beside it. -/
def Token.operands (ts : List Token) : List Operand :=
  .literal (runs ts).1 :: (runs ts).2

private theorem concatenation_literal_cons (c : Char) (v : List Char) (xs : List Operand) :
    concatenation (.literal (c :: v) :: xs) =
      '\'' :: escapeChars [c] ++ (concatenation (.literal v :: xs)).tail := by
  have hs : escapeChars (c :: v) = escapeChars [c] ++ escapeChars v := escapeChars_append [c] v
  cases xs <;> simp [concatenation, Operand.text, hs]

/-- Every name that the tokens refer to can be held by a reference. -/
def Token.Named (ts : List Token) : Prop :=
  ∀ name, Token.reference name ∈ ts → IsName name.toList

theorem escapeChars_name {name : List Char} (h : ∀ c ∈ name, Text.isNameChar c = true) :
    escapeChars name = name := by
  induction name with
  | nil => rfl
  | cons c name ih =>
      have hc : c ≠ '\\' ∧ c ≠ '\'' := by
        have := h c (by simp)
        constructor <;> rintro rfl <;> simp [Text.isNameChar] at this
      simp [escapeChars, hc, ih fun d hd => h d (by simp [hd])]

theorem Token.quoted_eq_concatenation {ts : List Token} (h : Named ts) :
    '\'' :: ts.flatMap Token.text ++ ['\''] = concatenation (operands ts) := by
  induction ts with
  | nil => rfl
  | cons t ts ih =>
      have ih := ih fun name hm => h name (by simp [hm])
      cases t with
      | char c =>
          rw [operands, runs, concatenation_literal_cons]
          change _ = _ ++ (concatenation (operands ts)).tail
          rw [← ih]
          simp [Token.text]
      | reference name =>
          have hn : escapeChars name.toList = name.toList :=
            escapeChars_name (h name (by simp)).2
          change _ = concatenation ([.literal [], .slot name.toList] ++ operands ts)
          rw [concatenation_append (by simp) (by simp [operands]), ← ih]
          simp [concatenation, Operand.text, Token.text, escapeChars, hn]

theorem Token.quoteChars_text {ts : List Token} (h : Named ts) :
    quoteChars (ts.flatMap Token.text) = concatenation (trimEnds (operands ts)) := by
  rw [quoteChars, quoted_eq_concatenation h, dropFront_concatenation, dropBack_concatenation]
  rfl

theorem Token.value_operands (ρ : String → String) (ts : List Token) :
    (operands ts).flatMap (Operand.value ρ) = ts.flatMap (Token.value ρ) := by
  induction ts with
  | nil => rfl
  | cons t ts ih =>
      simp only [operands, List.flatMap_cons] at ih ⊢
      cases t <;> simp [runs, Operand.value, Token.value, ← ih]

theorem Token.isName_of_mem_operands {ts : List Token} (h : Named ts) {name : List Char}
    (hm : Operand.slot name ∈ operands ts) : IsName name := by
  induction ts with
  | nil => simp [operands, runs] at hm
  | cons t ts ih =>
      have ih := ih fun name hm => h name (by simp [hm])
      simp only [operands, List.mem_cons, reduceCtorEq, false_or] at ih hm
      cases t with
      | char c => exact ih hm
      | reference other =>
          simp only [runs, List.mem_cons, reduceCtorEq, false_or, Operand.slot.injEq] at hm
          rcases hm with rfl | hm
          · exact h other (by simp)
          · exact ih hm

theorem Tokens.named {cs : List Char} {ts : List Token} (h : Tokens cs ts) : Token.Named ts := by
  induction h with
  | nil => simp [Token.Named]
  | reference hn _ ih =>
      intro other hm
      rcases List.mem_cons.mp hm with he | hm
      · obtain rfl := Token.reference.inj he
        simpa using hn
      · exact ih other hm
  | char _ _ ih =>
      intro other hm
      exact ih other (by simpa using hm)

/-! ## The value of a quoted argument -/

/-- Quoted text of an argument is one concatenation of closed literals and slots. Its value is the
argument with every well-formed reference replaced by the value of its variable. -/
theorem readConcatenation?_quote_text (raw : String) :
    ∃ ts xs, Tokens raw.toList ts ∧
      readConcatenation? (quote (Argument.text raw)).toList = some xs ∧
      (∀ name, Operand.slot name ∈ xs → IsName name) ∧
      ∀ ρ, xs.flatMap (Operand.value ρ) = ts.flatMap (Token.value ρ) := by
  obtain ⟨ts, hts⟩ : ∃ ts, Tokens raw.toList ts := ⟨_, (Segment.tokens_iff raw _).mpr rfl⟩
  refine ⟨ts, trimEnds (Token.operands ts), hts, ?_, ?_, ?_⟩
  · rw [quote, String.toList_ofList, Argument.toList_text hts, Token.quoteChars_text hts.named]
    exact readConcatenation?_concatenation (trimEnds_ne_nil (by simp [Token.operands]))
  · intro name hm
    exact Token.isName_of_mem_operands hts.named (mem_of_mem_trimEnds hm)
  · intro ρ
    rw [value_trimEnds, Token.value_operands]

/-- An empty literal stays between two references and is left out at the ends. -/
example : quote (Argument.text "${a}${b}") = "$this->vars['a'] . '' . $this->vars['b']" := by decide

end CestWriter
