import CestWriter.Proofs.Emission.Registry
import CestWriter.Proofs.Recording.Cutting

/-! # Addresses that are opened

An absolute address is opened as recorded. Any other one continues the base address, in which nothing
is taken for a reference. -/

namespace CestWriter

open Php (Operand Piece Statement quote readConcatenation?)

/-! ## Absolute addresses -/

/-- The address begins with one of the schemes. -/
def IsAbsoluteAddress (raw : String) : Prop :=
  ∃ scheme ∈ ["file://", "http://", "https://"], ∃ rest, raw = scheme ++ rest

/-- Preparing a target keeps it absolute, and makes no other one absolute. -/
theorem Emission.isAbsoluteUrl_text (raw : String) :
    isAbsoluteUrl (Argument.text raw) = true ↔ IsAbsoluteAddress raw := by
  have hplain : ∀ scheme ∈ ["file://", "http://", "https://"], Plain scheme := by decide
  simp only [isAbsoluteUrl, List.any_eq_true, IsAbsoluteAddress]
  refine exists_congr fun scheme => and_congr_right fun hscheme => ?_
  rw [(hplain scheme hscheme).startsWith_text, Text.startsWith_eq_true_iff]

/-! ## The argument of a navigation -/

/-- The base address is a run of characters before the tokens of the target. -/
theorem Emission.toList_address {raw : String} {ts : List Token} (h : Tokens raw.toList ts)
    (hraw : ¬ IsAbsoluteAddress raw) (baseUrl : String) :
    (address baseUrl (Argument.text raw)).toList =
      (baseUrl.toList.map Token.char ++ ts).flatMap Token.text := by
  rw [address, if_neg ((isAbsoluteUrl_text raw).not.mpr hraw), String.toList_append,
    Argument.toList_text h, List.flatMap_append, flatMap_text_chars, Php.escape,
    String.toList_ofList]

theorem Token.named_chars_append {ts : List Token} (h : Named ts) (cs : List Char) :
    Named (cs.map .char ++ ts) := by
  intro name hm
  exact h name (by simpa using hm)

theorem Token.value_chars_append (ρ : String → String) (cs : List Char) (ts : List Token) :
    (cs.map Token.char ++ ts).flatMap (Token.value ρ) = cs ++ ts.flatMap (Token.value ρ) := by
  rw [List.flatMap_append, List.flatMap_map]
  congr 1
  exact List.flatMap_singleton' cs

/-- An expression for the address that a target stands for where `baseUrl` is the base address: a
concatenation of closed literals and stored variables. -/
def Navigates (argument baseUrl raw : String) : Prop :=
  ∃ ts xs, Tokens raw.toList ts ∧ readConcatenation? argument.toList = some xs ∧
    (∀ name, Operand.slot name ∈ xs → IsName name) ∧
    (IsAbsoluteAddress raw →
      ∀ ρ, xs.flatMap (Operand.value ρ) = ts.flatMap (Token.value ρ)) ∧
    (¬ IsAbsoluteAddress raw →
      ∀ ρ, xs.flatMap (Operand.value ρ) = baseUrl.toList ++ ts.flatMap (Token.value ρ))

theorem Emission.navigates_address (baseUrl raw : String) :
    Navigates (quote (address baseUrl (Argument.text raw))) baseUrl raw := by
  obtain ⟨ts, hts⟩ := Argument.exists_tokens raw
  by_cases hraw : IsAbsoluteAddress raw
  · obtain ⟨xs, hread, hnames, hvalue⟩ := Token.exists_concatenation hts.named
    refine ⟨ts, xs, hts, ?_, hnames, fun _ => hvalue, fun hnot => absurd hraw hnot⟩
    rw [address, if_pos ((isAbsoluteUrl_text raw).mpr hraw), quote, String.toList_ofList,
      Argument.toList_text hts, hread]
  · obtain ⟨xs, hread, hnames, hvalue⟩ :=
      Token.exists_concatenation (Token.named_chars_append hts.named baseUrl.toList)
    refine ⟨ts, xs, hts, ?_, hnames, fun habsolute => absurd habsolute hraw, fun _ ρ => ?_⟩
    · rw [quote, String.toList_ofList, toList_address hts hraw, hread]
    · rw [hvalue, Token.value_chars_append]

/-! ## The step -/

/-- Opening an address is one call, whose argument is worth the recorded target or the base address
with the target after it. -/
theorem Registry.open_navigates {setting : Setting} {s : Step} (hs : s.command = "open") :
    ∃ argument : String, Navigates argument setting.baseUrl s.target ∧
      builtin.emit setting s = .ok (
        let call : Fragment := .statement ("$i->amOnUrl(" ++ argument ++ ");")
        if s.opensWindow then Window.wrap s call else call) := by
  refine ⟨_, Emission.navigates_address setting.baseUrl s.target, ?_⟩
  have hcall (prepared : String) :
      Statement.render [.code "$i->amOnUrl(", .quoted prepared, .code ");"] =
        "$i->amOnUrl(" ++ quote prepared ++ ");" := by
    rw [← String.toList_inj]
    simp [Statement.toList_render, Piece.render]
  rw [emit_builtin_of_command hs (a := .openPage) (by decide) (by decide +kernel), ← hcall]
  rfl

/-- Quotes, a backslash and the look of a reference in the base address are kept where a reference
and a quote follow. -/
theorem Registry.open_navigates_of_quotes :
    let setting : Setting := ⟨"it's ${x}\\", .webDriver⟩
    let s : Step := { Step.blank with command := "open", target := "${a}'" }
    s.command = "open" ∧ ∃ argument : String, Navigates argument "it's ${x}\\" "${a}'" ∧
      builtin.emit setting s = .ok (.statement ("$i->amOnUrl(" ++ argument ++ ");")) := by
  intro setting s
  have hs : s.command = "open" := rfl
  obtain ⟨argument, hnavigates, hemit⟩ := @open_navigates setting s hs
  exact ⟨hs, argument, hnavigates, hemit⟩

end CestWriter
