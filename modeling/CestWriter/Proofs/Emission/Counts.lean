import CestWriter.Proofs.Emission.Numbers
import CestWriter.Proofs.Emission.Registry
import CestWriter.Proofs.Php.Cast
import CestWriter.Proofs.Recording.Cutting

/-! # Repeat counts

A count that is recorded as a numeral is written as an integer. Any other one is written as a cast
before the quoted text. Where the text has more than one operand, the cast takes the first of them. -/

namespace CestWriter

open Number (IsFinite saturate64)
open Php (Assigned Operand Piece Statement quote quoteChars trimBack trimEnds trimFront)

/-! ## Arguments of one operand -/

/-- No reference stands in the argument, or the argument is one reference and nothing else. -/
def Token.OneOperand (ts : List Token) : Prop :=
  (∀ name, Token.reference name ∉ ts) ∨ ∃ name, ts = [.reference name]

namespace Token

theorem operands_chars (cs : List Char) : operands (cs.map char) = [.literal cs] := by
  induction cs with
  | nil => rfl
  | cons c cs ih =>
      simp only [operands, List.cons.injEq, Operand.literal.injEq] at ih
      simp [operands, runs, ih]

theorem operands_reference (cs : List Char) (name : String) (ts : List Token) :
    operands (cs.map char ++ reference name :: ts) =
      .literal cs :: .slot name.toList :: operands ts := by
  induction cs with
  | nil => rfl
  | cons c cs ih =>
      simp only [operands, List.cons.injEq, Operand.literal.injEq] at ih
      simp [operands, runs, ih]

theorem exists_reference (ts : List Token) :
    (∃ cs : List Char, ts = cs.map char) ∨
      ∃ (cs : List Char) (name : String) (us : List Token), ts = cs.map char ++ reference name :: us := by
  induction ts with
  | nil => exact .inl ⟨[], rfl⟩
  | cons t ts ih =>
      cases t with
      | reference name => exact .inr ⟨[], name, ts, rfl⟩
      | char c =>
          rcases ih with ⟨cs, rfl⟩ | ⟨cs, name, us, rfl⟩
          · exact .inl ⟨c :: cs, rfl⟩
          · exact .inr ⟨c :: cs, name, us, rfl⟩

theorem eq_nil_of_operands {ts : List Token} (h : operands ts = [.literal []]) : ts = [] := by
  rcases exists_reference ts with ⟨cs, rfl⟩ | ⟨cs, name, us, rfl⟩
  · rw [operands_chars] at h
    simpa using h
  · rw [operands_reference] at h
    simp at h

/-- Where a reference stands beside anything else, two operands are left or more. -/
theorem eq_of_trimEnds_reference {cs : List Char} {name : String} {us : List Token} {x : Operand}
    (h : trimEnds (.literal cs :: .slot name.toList :: operands us) = [x]) : cs = [] ∧ us = [] := by
  -- Of three operands or more, only an empty first and an empty last one are left out.
  obtain ⟨init, last, hlast⟩ := List.eq_nil_or_concat' (operands us) |>.resolve_left (by simp [operands])
  obtain ⟨front, hfront, hne, hone⟩ : ∃ front : List Operand,
      trimFront (.literal cs :: .slot name.toList :: operands us) = front ++ init ++ [last] ∧
      front ≠ [] ∧ (front.length = 1 → cs = []) := by
    rw [hlast]
    cases cs with
    | nil => exact ⟨[.slot name.toList], by simp [trimFront], by simp, fun _ => rfl⟩
    | cons c cs => exact ⟨[.literal (c :: cs), .slot name.toList], by simp [trimFront], by simp, by simp⟩
  have hpos : 0 < front.length := List.length_pos_iff.mpr hne
  rw [trimEnds, hfront, Php.trimBack_concat (by simp [hne])] at h
  have hlength := congrArg List.length h
  split at h
  · next hempty =>
      simp only [hempty, if_true, List.length_append, List.length_singleton] at hlength
      obtain rfl : init = [] := List.eq_nil_of_length_eq_zero (by omega)
      exact ⟨hone (by omega), eq_nil_of_operands (by rw [hlast, hempty, List.nil_append])⟩
  · next hfull =>
      simp only [hfull, if_false, List.length_append, List.length_singleton] at hlength
      omega

/-- One operand is left between the quotes where no reference stands beside anything else. -/
theorem exists_trimEnds_iff (ts : List Token) :
    (∃ x, trimEnds (operands ts) = [x]) ↔ OneOperand ts := by
  rcases exists_reference ts with ⟨cs, rfl⟩ | ⟨cs, name, us, rfl⟩
  · rw [operands_chars]
    exact iff_of_true ⟨.literal cs, by simp [trimEnds, trimFront, trimBack]⟩ (.inl (by simp))
  · rw [operands_reference]
    constructor
    · rintro ⟨x, hx⟩
      obtain ⟨rfl, rfl⟩ := eq_of_trimEnds_reference hx
      exact .inr ⟨name, rfl⟩
    · rintro (hnone | ⟨other, hother⟩)
      · exact absurd (by simp) (hnone name)
      · obtain ⟨rfl, rfl⟩ : cs = [] ∧ us = [] := by
          have hlength := congrArg List.length hother
          simp at hlength
          exact ⟨List.eq_nil_of_length_eq_zero (by omega), List.eq_nil_of_length_eq_zero (by omega)⟩
        exact ⟨.slot name.toList, by simp [trimEnds, trimFront, trimBack, operands, runs]⟩

end Token

/-! ## The count -/

namespace Emission

variable {prepared : String}

theorem repeatCount_of_isFinite {v : ℚ} (hv : IsFinite (Text.trimChars prepared.toList) v) :
    repeatCount prepared = .ok [.int (saturate64 ⌊v⌋)] := by
  rw [repeatCount, floor64?_trim_of_isFinite hv]

theorem repeatCount_of_not_isFinite (hnot : ∀ v, ¬ IsFinite (Text.trimChars prepared.toList) v) :
    repeatCount prepared = if Text.trimChars prepared.toList = []
      then .error (.badArgument .noRepeatCount)
      else .ok [.code "(int) ", .quoted prepared] := by
  simp only [repeatCount, floor64?_trim_of_not_isFinite hnot, Text.isEmpty_trim_iff]

end Emission

/-- What an expression for a repeat count is worth: a numeral is an integer of 64 bits, but for the
least one. Any other count is cast to an integer as a whole just where it is one operand. -/
structure Counts (raw : String) (ts : List Token) (x : Assigned) : Prop where
  numeral : ∀ v, IsFinite (Text.trimChars (Argument.text raw).toList) v →
    x = .numeral (max (-2 ^ 63) (min ⌊v⌋ (2 ^ 63 - 1)))
  cast : (∀ v, ¬ IsFinite (Text.trimChars (Argument.text raw).toList) v) →
    ∃ y ys, x = .joined (.int y :: ys.map .plain) ∧
      ∀ ρ, (y :: ys).flatMap (Operand.value ρ) = ts.flatMap (Token.value ρ)
  integer_iff : ∀ toInt ρ, (∃ n, x.int? toInt ρ = some n) ↔
    (∃ v, IsFinite (Text.trimChars (Argument.text raw).toList) v ∧ -2 ^ 63 < ⌊v⌋) ∨
    ((∀ v, ¬ IsFinite (Text.trimChars (Argument.text raw).toList) v) ∧ Token.OneOperand ts)
  whole : ∀ toInt ρ n, (∀ v, ¬ IsFinite (Text.trimChars (Argument.text raw).toList) v) →
    x.int? toInt ρ = some n → n = toInt (ts.flatMap (Token.value ρ))

namespace Counts

variable {raw : String} {ts : List Token}

theorem of_isFinite {v : ℚ} (hv : IsFinite (Text.trimChars (Argument.text raw).toList) v) :
    Counts raw ts (.numeral (saturate64 ⌊v⌋)) := by
  have hunique {w : ℚ} (hw : IsFinite (Text.trimChars (Argument.text raw).toList) w) : w = v :=
    hw.unique hv
  refine ⟨fun w hw => ?_, fun hnot => absurd hv (hnot v), fun toInt ρ => ?_,
    fun toInt ρ n hnot => absurd hv (hnot v)⟩
  · rw [hunique hw, Number.saturate64_eq_max_min]
  · -- Saturation keeps the digits within range but for those of the least integer.
    have hrange : (saturate64 ⌊v⌋).natAbs < 2 ^ 63 ↔ -2 ^ 63 < ⌊v⌋ := by
      unfold saturate64
      omega
    rw [Assigned.exists_int?_numeral, hrange]
    constructor
    · exact fun hlt => .inl ⟨v, hv, hlt⟩
    · rintro (⟨w, hw, hlt⟩ | ⟨hnot, -⟩)
      · rwa [← hunique hw]
      · exact absurd hv (hnot v)

theorem of_not_isFinite (hnot : ∀ v, ¬ IsFinite (Text.trimChars (Argument.text raw).toList) v)
    {y : Operand} {ys : List Operand} (h : trimEnds (Token.operands ts) = y :: ys) :
    Counts raw ts (.joined (.int y :: ys.map .plain)) := by
  have hvalue (ρ : String → String) :
      (y :: ys).flatMap (Operand.value ρ) = ts.flatMap (Token.value ρ) := by
    rw [← h, Php.value_trimEnds, Token.value_operands]
  have hone : ys = [] ↔ Token.OneOperand ts := by
    rw [← Token.exists_trimEnds_iff, h]
    simp
  refine ⟨fun v hv => absurd hv (hnot v), fun _ => ⟨y, ys, rfl, hvalue⟩, fun toInt ρ => ?_,
    fun toInt ρ n _ hn => ?_⟩
  · have hinteger : (∃ n, Assigned.int? toInt ρ (.joined (.int y :: ys.map .plain)) = some n) ↔
        ys = [] := by
      rw [Assigned.int?_cast]
      split <;> simp_all
    rw [hinteger, hone]
    constructor
    · exact fun hts => .inr ⟨hnot, hts⟩
    · rintro (⟨v, hv, -⟩ | ⟨-, hts⟩)
      · exact absurd hv (hnot v)
      · exact hts
  · rw [Assigned.int?_cast] at hn
    obtain ⟨rfl, hn⟩ := Option.ite_none_right_eq_some.mp hn
    obtain rfl := Option.some.inj hn
    rw [← hvalue ρ]
    simp

end Counts

/-- A count that is not blank is written as an expression that is worth an integer just as `Counts`
says. -/
theorem Emission.exists_repeatCount {raw : String}
    (h : Text.trimChars (Argument.text raw).toList ≠ []) :
    ∃ count ts x, repeatCount (Argument.text raw) = .ok count ∧ Tokens raw.toList ts ∧
      Assigned.read? count.render.toList = some x ∧ Counts raw ts x := by
  obtain ⟨ts, hts⟩ := Argument.exists_tokens raw
  by_cases hfinite : ∃ v, IsFinite (Text.trimChars (Argument.text raw).toList) v
  · obtain ⟨v, hv⟩ := hfinite
    refine ⟨_, ts, _, repeatCount_of_isFinite hv, hts, ?_, .of_isFinite hv⟩
    rw [Statement.render_cons, Statement.render_nil, String.append_empty, Piece.render,
      Assigned.read?_toString]
  · have hnot := not_exists.mp hfinite
    have hne : Token.operands ts ≠ [] := by simp [Token.operands]
    obtain ⟨y, ys, hoperands⟩ := List.exists_cons_of_ne_nil (Php.trimEnds_ne_nil hne)
    refine ⟨[.code "(int) ", .quoted (Argument.text raw)], ts, _, ?_, hts, ?_,
      .of_not_isFinite hnot hoperands⟩
    · rw [repeatCount_of_not_isFinite hnot, if_neg h]
    · have hquoted : (quote (Argument.text raw)).toList = Php.concatenation (y :: ys) := by
        rw [quote, String.toList_ofList, Argument.toList_text hts, Token.quoteChars_text hts.named,
          hoperands]
      rw [Statement.render_cons, Statement.render_cons, Statement.render_nil, String.append_empty,
        Piece.render, Piece.render, String.toList_append, hquoted]
      exact Assigned.read?_cast y ys

/-! ## The step -/

/-- Lines that assign the count and begin the loop. -/
def Emission.timesBlock (count : String) : Fragment :=
  .block ⟨[⟨0, "$times = " ++ count ++ ";"⟩, ⟨0, "for ($c = 0; $c < $times; $c++) \x7b"⟩], 0, 1⟩

theorem Emission.render_times (count : Statement) :
    (Form.block [(0, [.code "$times = "] ++ count ++ [.code ";"]),
      (0, [.code "for ($c = 0; $c < $times; $c++) \x7b"])] 0 1).render = timesBlock count.render := by
  have hassign : Statement.render ([.code "$times = "] ++ count ++ [.code ";"]) =
      "$times = " ++ count.render ++ ";" := by
    rw [← String.toList_inj]
    simp [Statement.toList_render, Piece.render]
  have hloop : Statement.render [.code "for ($c = 0; $c < $times; $c++) \x7b"] =
      "for ($c = 0; $c < $times; $c++) \x7b" := by
    rw [Statement.render_cons, Statement.render_nil, String.append_empty, Piece.render]
  simp only [Form.render, timesBlock, List.map_cons, List.map_nil, hassign, hloop]

/-- A step that repeats is refused where its count is blank. Otherwise it assigns an expression that
is worth an integer just as `Counts` says. -/
theorem Registry.times_integer_iff {setting : Setting} {s : Step} (hs : s.command = "times") :
    (Text.trimChars (Argument.text s.target).toList = [] →
      builtin.emit setting s = .error (.badArgument .noRepeatCount)) ∧
    (Text.trimChars (Argument.text s.target).toList ≠ [] →
      ∃ (count : String) (ts : List Token) (x : Assigned),
        builtin.emit setting s = .ok (if s.opensWindow
          then Window.wrap s (Emission.timesBlock count) else Emission.timesBlock count) ∧
        Tokens s.target.toList ts ∧ Assigned.read? count.toList = some x ∧ Counts s.target ts x) := by
  have hemit := @emit_builtin_of_command setting s _ .times hs (by decide) (by decide +kernel)
  constructor
  · intro hblank
    have hrefused : Emission.repeatCount (Argument.text s.target) =
        .error (.badArgument .noRepeatCount) := by
      rw [Emission.repeatCount_of_not_isFinite fun v hv => hv.ne_nil hblank, if_pos hblank]
    rw [hemit, Action.compose, Emission.times, hrefused]
    rfl
  · intro hfull
    obtain ⟨count, ts, x, hcount, hts, hread, hcounts⟩ := Emission.exists_repeatCount hfull
    refine ⟨count.render, ts, x, ?_, hts, hread, hcounts⟩
    rw [hemit, Action.compose, Emission.times, hcount, ← Emission.render_times]
    rfl

/-- A digit before a reference: the cast takes the digit, and what is assigned is never an integer. -/
theorem Registry.times_integer_iff_of_digit :
    let s : Step := { Step.blank with command := "times", target := "1${n}" }
    s.command = "times" ∧ ∃ (count : String) (x : Assigned),
      builtin.emit ⟨"", .webDriver⟩ s = .ok (Emission.timesBlock count) ∧
      Assigned.read? count.toList = some x ∧ ∀ toInt ρ n, x.int? toInt ρ ≠ some n := by
  intro s
  have hs : s.command = "times" := rfl
  obtain ⟨count, ts, x, hemit, hts, hread, hcounts⟩ :=
    (@times_integer_iff ⟨"", .webDriver⟩ s hs).2 (by decide +kernel)
  refine ⟨hs, count, x, hemit, hread, fun toInt ρ n hn => ?_⟩
  have htokens : ts = [.char '1', .reference "n"] :=
    ((Segment.tokens_iff _ ts).mp hts).symm.trans (by decide +kernel)
  rcases (hcounts.integer_iff toInt ρ).mp ⟨n, hn⟩ with ⟨v, hv, -⟩ | ⟨-, hone⟩
  · have hnone : Number.floor64? (Text.trim (Argument.text s.target)) = none := by decide +kernel
    exact Number.floor64?_eq_none_iff.mp hnone v (by rwa [Text.toList_trim])
  · rcases hone with hnone | ⟨name, hname⟩
    · exact hnone "n" (by simp [htokens])
    · simp [htokens] at hname

end CestWriter
