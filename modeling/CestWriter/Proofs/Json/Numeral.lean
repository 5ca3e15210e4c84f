import CestWriter.Json.Numeral
import CestWriter.Proofs.Number.Numeral
import CestWriter.Proofs.Text.Name
import Mathlib.Data.List.TakeWhile

/-! # Numerals in JSON text -/

namespace CestWriter.Json.Numeral

open CestWriter.Number (Double IsNatural ofDigits)

/-- A run of digits that is not empty. -/
structure IsDigits (ds : List Char) : Prop where
  ne_nil : ds ≠ []
  isDigit : ∀ c ∈ ds, c.isDigit = true

/-- A numeral taken apart: its sign, the digits before and after the point, and the exponent. -/
structure Parts where
  negative : Bool
  whole : List Char
  fraction : Option (List Char)
  exponent : Option Int

/-- The number that is read; none beyond the doubles. -/
def Parts.number? (p : Parts) : Option Json.Number :=
  value? p.negative p.whole p.fraction p.exponent

inductive SpellsSign : Bool → List Char → Prop
  | plus : SpellsSign false []
  | minus : SpellsSign true ['-']

inductive SpellsFraction : Option (List Char) → List Char → Prop
  | absent : SpellsFraction none []
  | present {ds : List Char} (h : IsDigits ds) : SpellsFraction (some ds) ('.' :: ds)

inductive SpellsExponent : Option Int → List Char → Prop
  | absent : SpellsExponent none []
  | bare {mark : Char} {ds : List Char} (hm : mark = 'e' ∨ mark = 'E') (h : IsDigits ds) :
    SpellsExponent (some (ofDigits ds)) (mark :: ds)
  | plus {mark : Char} {ds : List Char} (hm : mark = 'e' ∨ mark = 'E') (h : IsDigits ds) :
    SpellsExponent (some (ofDigits ds)) (mark :: '+' :: ds)
  | minus {mark : Char} {ds : List Char} (hm : mark = 'e' ∨ mark = 'E') (h : IsDigits ds) :
    SpellsExponent (some (-ofDigits ds)) (mark :: '-' :: ds)

/-- How a numeral is spelled: the digits before the point have no superfluous zero. -/
inductive Parts.Spells (p : Parts) : List Char → Prop
  | mk {sign fraction exponent : List Char} (hsign : SpellsSign p.negative sign)
    (hwhole : IsNatural p.whole) (hfraction : SpellsFraction p.fraction fraction)
    (hexponent : SpellsExponent p.exponent exponent) :
    Spells p (sign ++ (p.whole ++ (fraction ++ exponent)))

/-- Nothing that would go on with a numeral. -/
def Ends (rest : List Char) : Prop :=
  ∀ c ∈ rest.head?, c.isDigit = false ∧ c ≠ '.' ∧ c ≠ 'e' ∧ c ≠ 'E'

/-! ## Digits -/

/-- A text that does not begin with a digit. -/
def NoDigit (rest : List Char) : Prop :=
  ∀ c ∈ rest.head?, c.isDigit = false

theorem span_digits {ds rest : List Char} (h : ∀ c ∈ ds, c.isDigit = true) (hr : NoDigit rest) :
    (ds ++ rest).takeWhile Char.isDigit = ds ∧ (ds ++ rest).dropWhile Char.isDigit = rest :=
  ⟨Text.takeWhile_run h hr, Text.dropWhile_run h hr⟩

theorem isDigits_takeWhile {cs : List Char} (h : cs.takeWhile Char.isDigit ≠ []) :
    IsDigits (cs.takeWhile Char.isDigit) :=
  ⟨h, fun _ hc => List.mem_takeWhile_imp hc⟩

theorem IsDigits.span {ds rest : List Char} (h : IsDigits ds) (hr : NoDigit rest) :
    (ds ++ rest).takeWhile Char.isDigit = ds ∧ (ds ++ rest).dropWhile Char.isDigit = rest :=
  span_digits h.isDigit hr

theorem Ends.noDigit {rest : List Char} (h : Ends rest) : NoDigit rest :=
  fun c hc => (h c hc).1

/-! ## One part after another -/

theorem takeWhole?_append {w rest : List Char} (hw : IsNatural w) (hr : NoDigit rest) :
    takeWhole? (w ++ rest) = some (w, rest) := by
  by_cases hzero : w.head? = some '0'
  · obtain rfl := hw.leading hzero
    rfl
  · obtain ⟨htake, hdrop⟩ := span_digits hw.isDigit hr
    obtain ⟨c, cs, rfl⟩ := List.exists_cons_of_ne_nil hw.ne_nil
    have hc : c ≠ '0' := by simpa using hzero
    rw [List.cons_append] at htake hdrop ⊢
    rw [takeWhole?, htake, hdrop, if_neg hw.ne_nil]
    exact fun _ he => hc (List.cons.inj he).1

theorem takeWhole?_sound {cs w rest : List Char} (h : takeWhole? cs = some (w, rest)) :
    cs = w ++ rest ∧ IsNatural w := by
  unfold takeWhole? at h
  split at h
  · next tail =>
      obtain ⟨rfl, rfl⟩ := Prod.mk.inj (Option.some.inj h)
      exact ⟨rfl, by simp, by simp, fun _ => rfl⟩
  · next hzero =>
      dsimp only at h
      split at h
      · cases h
      · next hne =>
          obtain ⟨rfl, rfl⟩ := Prod.mk.inj (Option.some.inj h)
          have hds := isDigits_takeWhile hne
          refine ⟨List.takeWhile_append_dropWhile.symm, hds.ne_nil, hds.isDigit, fun hhead => ?_⟩
          obtain ⟨c, tail, rfl⟩ : ∃ c tail, cs = c :: tail := by
            cases cs with
            | nil => exact absurd rfl hne
            | cons c tail => exact ⟨c, tail, rfl⟩
          have hc : c ≠ '0' := fun he => hzero tail (he ▸ rfl)
          rw [List.takeWhile_cons] at hhead
          split at hhead
          · exact absurd (Option.some.inj hhead) hc
          · cases hhead

theorem SpellsFraction.take {f : Option (List Char)} {cs rest : List Char}
    (h : SpellsFraction f cs) (hr : NoDigit rest) (hpoint : rest.head? ≠ some '.') :
    takeFraction? (cs ++ rest) = some (f, rest) := by
  cases h with
  | absent =>
      rw [List.nil_append, takeFraction?]
      intro tail he
      rw [he] at hpoint
      exact hpoint rfl
  | present h =>
      obtain ⟨htake, hdrop⟩ := h.span hr
      rw [List.cons_append, takeFraction?, htake, hdrop, if_neg h.ne_nil]

theorem takeFraction?_sound {cs rest : List Char} {f : Option (List Char)}
    (h : takeFraction? cs = some (f, rest)) : ∃ tok, cs = tok ++ rest ∧ SpellsFraction f tok := by
  unfold takeFraction? at h
  split at h
  · next tail =>
      dsimp only at h
      split at h
      · cases h
      · next hne =>
          obtain ⟨rfl, rfl⟩ := Prod.mk.inj (Option.some.inj h)
          exact ⟨_, by simp [List.takeWhile_append_dropWhile], .present (isDigits_takeWhile hne)⟩
  · obtain ⟨rfl, rfl⟩ := Prod.mk.inj (Option.some.inj h)
    exact ⟨[], rfl, .absent⟩

theorem SpellsExponent.take {e : Option Int} {cs rest : List Char} (h : SpellsExponent e cs)
    (hr : Ends rest) : takeExponent? (cs ++ rest) = some (e, rest) := by
  cases h with
  | absent =>
      rw [List.nil_append]
      cases rest with
      | nil => rfl
      | cons c rest =>
          obtain ⟨-, -, he, hE⟩ := hr c rfl
          simp [takeExponent?, he, hE]
  | @bare mark ds hm h =>
      obtain ⟨htake, hdrop⟩ := h.span hr.noDigit
      have hsign (c : Char) (hc : c.isDigit = false) (r : List Char) : ds ++ rest ≠ c :: r := by
        obtain ⟨d, tail, rfl⟩ := List.exists_cons_of_ne_nil h.ne_nil
        intro he
        obtain rfl := (List.cons.inj he).1
        exact Bool.false_ne_true (hc.symm.trans (h.isDigit d (.head _)))
      rw [List.cons_append, takeExponent?, if_pos hm]
      · simp [htake, hdrop, h.ne_nil]
      · exact hsign '-' rfl
      · exact hsign '+' rfl
  | plus hm h =>
      obtain ⟨htake, hdrop⟩ := h.span hr.noDigit
      simp [takeExponent?, hm, htake, hdrop, h.ne_nil]
  | minus hm h =>
      obtain ⟨htake, hdrop⟩ := h.span hr.noDigit
      simp [takeExponent?, hm, htake, hdrop, h.ne_nil]

/-- The digits that an exponent must have. -/
theorem isDigits_of_exponent {body rest : List Char} {e : Option Int} {f : List Char → Int}
    (h : (if body.takeWhile Char.isDigit = [] then none
      else some (some (f (body.takeWhile Char.isDigit)), body.dropWhile Char.isDigit)) =
        some (e, rest)) :
    ∃ ds, IsDigits ds ∧ body = ds ++ rest ∧ e = some (f ds) := by
  split at h
  · cases h
  · next hne =>
      obtain ⟨rfl, rfl⟩ := Prod.mk.inj (Option.some.inj h)
      exact ⟨_, isDigits_takeWhile hne, List.takeWhile_append_dropWhile.symm, rfl⟩

theorem takeExponent?_sound {cs rest : List Char} {e : Option Int}
    (h : takeExponent? cs = some (e, rest)) : ∃ tok, cs = tok ++ rest ∧ SpellsExponent e tok := by
  unfold takeExponent? at h
  split at h
  · next mark tail =>
      split at h
      · next hm =>
          dsimp only at h
          split at h
          · obtain ⟨ds, hds, rfl, rfl⟩ := isDigits_of_exponent (f := fun ds => -ofDigits ds) h
            exact ⟨_, rfl, .minus hm hds⟩
          · obtain ⟨ds, hds, rfl, rfl⟩ := isDigits_of_exponent (f := fun ds => ofDigits ds) h
            exact ⟨_, rfl, .plus hm hds⟩
          · obtain ⟨ds, hds, rfl, rfl⟩ := isDigits_of_exponent (f := fun ds => ofDigits ds) h
            exact ⟨_, rfl, .bare hm hds⟩
      · obtain ⟨rfl, rfl⟩ := Prod.mk.inj (Option.some.inj h)
        exact ⟨[], rfl, .absent⟩
  · obtain ⟨rfl, rfl⟩ := Prod.mk.inj (Option.some.inj h)
    exact ⟨[], rfl, .absent⟩

/-! ## Whole numerals -/

/-- An exponent, or what follows the numeral, does not go on with a fraction. -/
theorem SpellsExponent.noFraction {e : Option Int} {cs rest : List Char} (h : SpellsExponent e cs)
    (hr : Ends rest) : NoDigit (cs ++ rest) ∧ (cs ++ rest).head? ≠ some '.' := by
  have hmark {mark : Char} {tail : List Char} (hm : mark = 'e' ∨ mark = 'E') :
      NoDigit (mark :: tail) ∧ (mark :: tail).head? ≠ some '.' := by
    rcases hm with rfl | rfl <;> simp [NoDigit]
  cases h with
  | absent => exact ⟨hr.noDigit, fun he => (hr '.' he).2.1 rfl⟩
  | bare hm h => exact hmark hm
  | plus hm h => exact hmark hm
  | minus hm h => exact hmark hm

theorem SpellsFraction.noDigit {f : Option (List Char)} {cs rest : List Char}
    (h : SpellsFraction f cs) (hr : NoDigit rest) : NoDigit (cs ++ rest) := by
  cases h with
  | absent => exact hr
  | present h => simp [NoDigit]

theorem Parts.Spells.take {p : Parts} {cs rest : List Char} (h : p.Spells cs) (hr : Ends rest) :
    take? (cs ++ rest) = some (p.number?, rest) := by
  obtain ⟨negative, whole, f, x⟩ := p
  obtain ⟨hsign, hwhole, hfraction, hexponent⟩ := h
  dsimp only at hsign hwhole hfraction hexponent ⊢
  obtain ⟨hdigit, hpoint⟩ := hexponent.noFraction hr
  have hw := takeWhole?_append hwhole (hfraction.noDigit hdigit)
  have hf := hfraction.take hdigit hpoint
  have he := hexponent.take hr
  simp only [List.append_assoc]
  cases hsign with
  | minus =>
      simp only [List.cons_append, List.nil_append, take?, hw, hf, he, Option.bind_eq_bind,
        Option.bind_some, Parts.number?]
  | plus =>
      have hminus (tail r : List Char) : whole ++ tail ≠ '-' :: r := by
        obtain ⟨d, ds, rfl⟩ := List.exists_cons_of_ne_nil hwhole.ne_nil
        intro he
        obtain rfl := (List.cons.inj he).1
        exact absurd (hwhole.isDigit '-' (.head _)) (by decide)
      rw [List.nil_append, take?]
      · simp only [hw, hf, he, Option.bind_eq_bind, Option.bind_some, Parts.number?]
      · exact hminus _

theorem take?_sound {cs rest : List Char} {n : Option Json.Number}
    (h : take? cs = some (n, rest)) :
    ∃ (p : Parts) (tok : List Char), cs = tok ++ rest ∧ p.Spells tok ∧ n = p.number? := by
  unfold take? at h
  split at h
  next negative body hsign =>
  simp only [Option.bind_eq_bind, Option.bind_eq_some_iff] at h
  obtain ⟨⟨whole, _⟩, hw, ⟨fraction, _⟩, hf, ⟨exponent, tail⟩, he, h⟩ := h
  obtain ⟨rfl, rfl⟩ := Prod.mk.inj (Option.some.inj h)
  obtain ⟨rfl, hwhole⟩ := takeWhole?_sound hw
  obtain ⟨f, rfl, hfraction⟩ := takeFraction?_sound hf
  obtain ⟨x, rfl, hexponent⟩ := takeExponent?_sound he
  have hminus : ∃ sign, SpellsSign negative sign ∧ cs = sign ++ (whole ++ (f ++ (x ++ tail))) := by
    split at hsign
    · obtain ⟨rfl, rfl⟩ := Prod.mk.inj hsign
      exact ⟨_, .minus, rfl⟩
    · obtain ⟨rfl, rfl⟩ := Prod.mk.inj hsign
      exact ⟨_, .plus, rfl⟩
  obtain ⟨sign, hs, rfl⟩ := hminus
  refine ⟨⟨negative, whole, fraction, exponent⟩, _, ?_, .mk hs hwhole hfraction hexponent, rfl⟩
  simp

end CestWriter.Json.Numeral
