import CestWriter.Proofs.Json.Grammar

/-! # Reading JSON text

The reader takes a value off a text just where the grammar spells one. -/

namespace CestWriter.Json

open Numeral (Ends)

/-! ## Blanks -/

namespace Blanks

variable {cs mid rest : List Char}

theorem skipBlank_eq (h : Blanks cs rest) : skipBlank cs = skipBlank rest := by
  induction h with
  | nil => rfl
  | cons hc _ ih => simpa [skipBlank, hc] using ih

/-- Skipping blanks leads up to a character that is none. -/
theorem skip {c : Char} (h : Blanks cs (c :: rest)) (hc : isTextBlank c = false) :
    skipBlank cs = c :: rest := by
  rw [h.skipBlank_eq, skipBlank, List.dropWhile_cons_of_neg (by simp [hc])]

theorem skipBlank_self (cs : List Char) : Blanks cs (skipBlank cs) := by
  induction cs with
  | nil => exact .nil _
  | cons c cs ih =>
      by_cases hc : isTextBlank c = true
      · rw [skipBlank, List.dropWhile_cons_of_pos hc]
        exact .cons hc ih
      · rw [skipBlank, List.dropWhile_cons_of_neg hc]
        exact .nil _

theorem of_skip {c : Char} (h : skipBlank cs = c :: rest) : Blanks cs (c :: rest) :=
  h ▸ skipBlank_self cs

theorem length_le (h : Blanks cs rest) : rest.length ≤ cs.length := by
  induction h with
  | nil => exact Nat.le_refl _
  | cons _ _ ih => exact Nat.le_succ_of_le ih

theorem spells {s : Source} (h : Blanks cs mid) (hs : Spells (.value s) mid rest) :
    Spells (.value s) cs rest := by
  induction h with
  | nil => exact hs
  | cons hc _ ih => exact .blank hc (ih hs)

theorem ends_blank {c : Char} (h : isTextBlank c = true) :
    c.isDigit = false ∧ c ≠ '.' ∧ c ≠ 'e' ∧ c ≠ 'E' := by
  simp only [isTextBlank, Bool.or_eq_true, beq_iff_eq] at h
  rcases h with ((rfl | rfl) | rfl) | rfl <;> decide

/-- Neither a blank nor a mark goes on with a numeral. -/
theorem ends {c : Char} (h : Blanks cs (c :: rest)) (hc : c = ',' ∨ c = ']' ∨ c = '\x7d') :
    Ends cs := by
  intro d hd
  cases h with
  | nil =>
      obtain rfl := Option.some.inj hd
      rcases hc with rfl | rfl | rfl <;> decide
  | cons hblank _ =>
      obtain rfl := Option.some.inj hd
      exact ends_blank hblank

end Blanks

/-! ## Progress -/

theorem SpellsKey.length_lt {codes : List Nat} {cs rest : List Char} (h : SpellsKey codes cs rest) :
    rest.length + 2 < cs.length := by
  obtain ⟨hquote, hcodes, hcolon⟩ := h
  have h1 := hquote.length_le
  have h2 := hcodes.length_lt
  have h3 := hcolon.length_le
  simp only [List.length_cons] at h1 h3
  omega

theorem Numeral.Parts.Spells.ne_nil {p : Numeral.Parts} {cs : List Char} (h : p.Spells cs) :
    0 < cs.length := by
  obtain ⟨-, hwhole, -, -⟩ := h
  have := List.length_pos_iff.mpr hwhole.ne_nil
  simp only [List.length_append]
  omega

/-- A phrase takes at least one character. -/
theorem Spells.length_lt {φ : Phrase} {cs rest : List Char} (h : Spells φ cs rest) :
    rest.length < cs.length := by
  induction h with
  | blank _ _ ih => exact Nat.lt_succ_of_lt ih
  | null | boolTrue | boolFalse => simp only [List.length_cons]; omega
  | numeral rest h =>
      have := h.ne_nil
      rw [List.length_append]
      omega
  | string h => exact Nat.lt_succ_of_lt h.length_lt
  | emptyArray h | emptyObject h =>
      have := h.length_le
      simp only [List.length_cons] at this ⊢
      omega
  | array _ ih | object _ ih => exact Nat.lt_succ_of_lt ih
  | lastItem _ hend ih =>
      have := hend.length_le
      simp only [List.length_cons] at this
      omega
  | item _ hcomma _ ih ihrest =>
      have := hcomma.length_le
      simp only [List.length_cons] at this
      omega
  | lastField hkey _ hend ih =>
      have := hkey.length_lt
      have := hend.length_le
      simp only [List.length_cons] at this
      omega
  | field hkey _ hcomma _ ih ihrest =>
      have := hkey.length_lt
      have := hcomma.length_le
      simp only [List.length_cons] at this
      omega

/-! ## What is spelled is read -/

theorem takeValue?_blank {c : Char} (hc : isTextBlank c = true) (fuel depth : Nat)
    (cs : List Char) : takeValue? fuel depth (c :: cs) = takeValue? fuel depth cs := by
  have hskip : skipBlank (c :: cs) = skipBlank cs := List.dropWhile_cons_of_pos hc
  cases fuel with
  | zero => rfl
  | succ fuel => rw [takeValue?, takeValue?, hskip]

/-- A numeral begins with a minus or a digit, unlike all other values. -/
def BeginsNumeral (c : Char) : Prop :=
  c = '-' ∨ c.isDigit = true

theorem Numeral.Parts.Spells.head {p : Numeral.Parts} {cs : List Char} (h : p.Spells cs) :
    ∃ c tail, cs = c :: tail ∧ BeginsNumeral c := by
  obtain ⟨negative, whole, f, x⟩ := p
  obtain ⟨hsign, hwhole, -, -⟩ := h
  dsimp only at hsign hwhole
  cases hsign with
  | minus => exact ⟨_, _, rfl, .inl rfl⟩
  | plus =>
      obtain ⟨d, ds, rfl⟩ := List.exists_cons_of_ne_nil hwhole.ne_nil
      exact ⟨_, _, rfl, .inr (hwhole.isDigit d (.head _))⟩

theorem BeginsNumeral.ne {c d : Char} (hc : BeginsNumeral c) (hd : d.isDigit = false)
    (hminus : d ≠ '-') : c ≠ d := by
  rintro rfl
  rcases hc with hc | hc
  · exact hminus hc
  · exact Bool.false_ne_true (hd.symm.trans hc)

theorem BeginsNumeral.not_blank {c : Char} (hc : BeginsNumeral c) : isTextBlank c = false := by
  simp only [isTextBlank, Bool.or_eq_false_iff, beq_eq_false_iff_ne]
  exact ⟨⟨⟨hc.ne rfl (by decide), hc.ne rfl (by decide)⟩, hc.ne rfl (by decide)⟩,
    hc.ne rfl (by decide)⟩

theorem skipBlank_cons {c : Char} (hc : isTextBlank c = false) (cs : List Char) :
    skipBlank (c :: cs) = c :: cs :=
  List.dropWhile_cons_of_neg (by simp [hc])

theorem takeValue?_numeral {c : Char} (hc : BeginsNumeral c) (fuel depth : Nat) (cs : List Char) :
    takeValue? (fuel + 1) depth (c :: cs) =
      (Numeral.take? (c :: cs)).map fun (n, rest) => ((n.map .number).getD .unusable, rest) := by
  rw [takeValue?, skipBlank_cons hc.not_blank]
  split
  case h_7 => rfl
  all_goals
    rename_i he
    exact absurd (List.cons.inj he).1 (hc.ne rfl (by decide))

theorem takeValue?_bracket (fuel depth : Nat) (cs : List Char) :
    takeValue? (fuel + 1) depth ('[' :: cs) =
      match skipBlank cs with
      | ']' :: rest => some (Draft.container (depth + 1) (some (.array [])), rest)
      | _ => (takeItems? fuel (depth + 1) [] cs).map fun (items, rest) =>
        (Draft.container (depth + 1) (some (.array items)), rest) :=
  rfl

theorem takeValue?_brace (fuel depth : Nat) (cs : List Char) :
    takeValue? (fuel + 1) depth ('\x7b' :: cs) =
      match skipBlank cs with
      | '\x7d' :: rest => some (Draft.container (depth + 1) (some (.object [])), rest)
      | _ => (takeFields? fuel (depth + 1) (some []) cs).map fun (fields, rest) =>
        (Draft.container (depth + 1) (fields.map .object), rest) :=
  rfl

/-- What a phrase begins with is never a closing bracket. -/
theorem Spells.skipBlank_ne {φ : Phrase} {cs rest : List Char} (h : Spells φ cs rest) {c : Char}
    (hc : c = ']' ∨ c = '\x7d') (tail : List Char) : skipBlank cs ≠ c :: tail := by
  have hskip {d : Char} {ds : List Char} (hd : isTextBlank d = Bool.false) (hd1 : d ≠ ']')
      (hd2 : d ≠ '\x7d') : skipBlank (d :: ds) ≠ c :: tail := by
    rw [skipBlank_cons hd]
    intro he
    obtain rfl := (List.cons.inj he).1
    exact hc.elim hd1 hd2
  induction h with
  | blank hblank _ ih => rwa [skipBlank, List.dropWhile_cons_of_pos hblank]
  | numeral rest h =>
      obtain ⟨d, ds, rfl, hd⟩ := h.head
      exact hskip hd.not_blank (hd.ne rfl (by decide)) (hd.ne rfl (by decide))
  | lastItem _ _ ih => exact ih
  | item _ _ _ ih _ => exact ih
  | lastField hkey | field hkey =>
      obtain ⟨hquote, -, -⟩ := hkey
      rw [hquote.skipBlank_eq]
      exact hskip rfl (by decide) (by decide)
  | _ => exact hskip rfl (by decide) (by decide)

/-- A field is its key, its value and the mark after it. -/
theorem takeFields?_key {codes : List Nat} {cs inside : List Char} (h : SpellsKey codes cs inside)
    (fuel depth : Nat) (done : Option (List (String × Draft))) :
    takeFields? (fuel + 1) depth done cs = (takeValue? fuel depth inside).bind fun (field, rest) =>
      match skipBlank rest with
      | ',' :: rest => takeFields? fuel depth
        ((textOf? codes).bind fun key => done.map ((key, field) :: ·)) rest
      | '\x7d' :: rest =>
        some (((textOf? codes).bind fun key => done.map ((key, field) :: ·)).map List.reverse, rest)
      | _ => none := by
  obtain ⟨hquote, hcodes, hcolon⟩ := h
  rw [takeFields?, hquote.skip rfl]
  simp only [takeString?, hcodes.takeCodes?_eq, Option.map_some, Option.bind_eq_bind,
    Option.bind_some, hcolon.skip rfl, List.append_nil]
  rfl

/-- A field that is put on those done so far comes before the fields that follow. -/
theorem bind_fieldDrafts?_cons (depth : Nat) (codes : List Nat) (s : Source)
    (fs : List (List Nat × Source)) (done : Option (List (String × Draft))) :
    (((textOf? codes).bind fun key => done.map ((key, s.draft depth) :: ·)).bind fun fields =>
        (Source.fieldDrafts? depth fs).map (fields.reverse ++ ·)) =
      done.bind fun fields =>
        (Source.fieldDrafts? depth ((codes, s) :: fs)).map (fields.reverse ++ ·) := by
  rw [Source.fieldDrafts?]
  cases textOf? codes <;> cases done <;> cases Source.fieldDrafts? depth fs <;> simp

theorem map_reverse_eq_bind (depth : Nat) (done : Option (List (String × Draft))) :
    done.map List.reverse =
      done.bind fun fields => (Source.fieldDrafts? depth []).map (fields.reverse ++ ·) := by
  cases done <;> simp [Source.fieldDrafts?]

/-- The reader takes the phrase off the text, if it has the fuel for it. -/
def Phrase.IsTaken (φ : Phrase) (fuel depth : Nat) (cs rest : List Char) : Prop :=
  match φ with
  | .value s => 2 * cs.length ≤ fuel → Ends rest →
      takeValue? fuel depth cs = some (s.draft depth, rest)
  | .items ss => 2 * cs.length + 1 ≤ fuel → ∀ done,
      takeItems? fuel depth done cs = some (done.reverse ++ Source.drafts depth ss, rest)
  | .fields fs => 2 * cs.length + 1 ≤ fuel → ∀ done,
      takeFields? fuel depth done cs = some (done.bind fun fields =>
        (Source.fieldDrafts? depth fs).map (fields.reverse ++ ·), rest)

/-- The reader has fuel for the first step on any phrase, which is not empty. -/
theorem Spells.isTaken_of_succ {φ : Phrase} {cs rest : List Char} (h : Spells φ cs rest)
    (hsucc : ∀ fuel depth, φ.IsTaken (fuel + 1) depth cs rest) (fuel depth : Nat) :
    φ.IsTaken fuel depth cs rest := by
  cases fuel with
  | zero =>
      have hlength := h.length_lt
      cases φ <;> (intro hfuel; omega)
  | succ fuel => exact hsucc fuel depth

theorem Spells.isTaken {φ : Phrase} {cs rest : List Char} (h : Spells φ cs rest) :
    ∀ fuel depth, φ.IsTaken fuel depth cs rest := by
  induction h with
  | blank hc h ih =>
      intro fuel depth hfuel hends
      rw [takeValue?_blank hc]
      exact ih fuel depth (by simp only [List.length_cons] at hfuel; omega) hends
  | null rest => exact (Spells.null rest).isTaken_of_succ fun _ _ _ _ => rfl
  | boolTrue rest => exact (Spells.boolTrue rest).isTaken_of_succ fun _ _ _ _ => rfl
  | boolFalse rest => exact (Spells.boolFalse rest).isTaken_of_succ fun _ _ _ _ => rfl
  | numeral rest h =>
      refine (Spells.numeral rest h).isTaken_of_succ fun fuel depth _ hends => ?_
      have htake := h.take hends
      obtain ⟨c, tail, rfl, hc⟩ := h.head
      rw [List.cons_append] at htake ⊢
      rw [takeValue?_numeral hc, htake]
      rfl
  | string h =>
      refine (Spells.string h).isTaken_of_succ fun fuel depth _ _ => ?_
      rw [takeValue?, skipBlank_cons rfl]
      simp [takeString?, h.takeCodes?_eq, Source.draft, textOf?]
  | emptyArray h =>
      refine (Spells.emptyArray h).isTaken_of_succ fun fuel depth _ _ => ?_
      rw [takeValue?_bracket, h.skip rfl]
      rfl
  | array h ih =>
      refine (Spells.array h).isTaken_of_succ fun fuel depth hfuel _ => ?_
      have hitems := ih fuel (depth + 1) (by simp only [List.length_cons] at hfuel; omega) []
      rw [takeValue?_bracket]
      split
      · next tail he => exact absurd he (h.skipBlank_ne (.inl rfl) tail)
      · rw [hitems]
        rfl
  | emptyObject h =>
      refine (Spells.emptyObject h).isTaken_of_succ fun fuel depth _ _ => ?_
      rw [takeValue?_brace, h.skip rfl]
      rfl
  | object h ih =>
      refine (Spells.object h).isTaken_of_succ fun fuel depth hfuel _ => ?_
      have hfields := ih fuel (depth + 1) (by simp only [List.length_cons] at hfuel; omega) (some [])
      rw [takeValue?_brace]
      split
      · next tail he => exact absurd he (h.skipBlank_ne (.inr rfl) tail)
      · rw [hfields]
        simp [Source.draft]
  | lastItem h hend ih =>
      refine (Spells.lastItem h hend).isTaken_of_succ fun fuel depth hfuel done => ?_
      have hvalue := ih fuel depth (by omega) (hend.ends (.inr (.inl rfl)))
      simp [takeItems?, hvalue, hend.skip rfl, Source.drafts]
  | item h hcomma hrest ih ihrest =>
      refine (Spells.item h hcomma hrest).isTaken_of_succ fun fuel depth hfuel done => ?_
      have hvalue := ih fuel depth (by omega) (hcomma.ends (.inl rfl))
      have hlength := h.length_lt
      have hless := hcomma.length_le
      simp only [List.length_cons] at hless
      have htail := ihrest fuel depth (by omega)
      simp [takeItems?, hvalue, hcomma.skip rfl, Source.drafts, htail]
  | @lastField codes s cs inside mid rest hkey h hend ih =>
      refine (Spells.lastField hkey h hend).isTaken_of_succ fun fuel depth hfuel done => ?_
      have hless := hkey.length_lt
      have hvalue := ih fuel depth (by omega) (hend.ends (.inr (.inr rfl)))
      rw [takeFields?_key hkey, hvalue, ← bind_fieldDrafts?_cons, ← map_reverse_eq_bind]
      simp only [Option.bind_some, hend.skip rfl]
  | @field codes s fs cs inside mid next rest hkey h hcomma hrest ih ihrest =>
      refine (Spells.field hkey h hcomma hrest).isTaken_of_succ fun fuel depth hfuel done => ?_
      have hless := hkey.length_lt
      have hvalue := ih fuel depth (by omega) (hcomma.ends (.inl rfl))
      have hlength := h.length_lt
      have hnext := hcomma.length_le
      simp only [List.length_cons] at hnext
      have htail := ihrest fuel depth (by omega)
      rw [takeFields?_key hkey, hvalue, ← bind_fieldDrafts?_cons]
      simp only [Option.bind_some, hcomma.skip rfl, htail]

/-! ## What is read is spelled -/

/-- All that the reader takes with the given fuel is spelled by the text. -/
structure Sound (fuel : Nat) : Prop where
  value : ∀ {depth cs d rest}, takeValue? fuel depth cs = some (d, rest) →
    ∃ s, Spells (.value s) cs rest ∧ d = s.draft depth
  items : ∀ {depth done cs ds rest}, takeItems? fuel depth done cs = some (ds, rest) →
    ∃ ss, Spells (.items ss) cs rest ∧ ds = done.reverse ++ Source.drafts depth ss
  fields : ∀ {depth done cs fields rest}, takeFields? fuel depth done cs = some (fields, rest) →
    ∃ fs, Spells (.fields fs) cs rest ∧
      fields = done.bind fun before => (Source.fieldDrafts? depth fs).map (before.reverse ++ ·)

theorem Sound.value_succ {fuel depth : Nat} {cs rest : List Char} {d : Draft} (h : Sound fuel)
    (htake : takeValue? (fuel + 1) depth cs = some (d, rest)) :
    ∃ s, Spells (.value s) cs rest ∧ d = s.draft depth := by
  have hblanks := Blanks.skipBlank_self cs
  suffices ∃ s, Spells (.value s) (skipBlank cs) rest ∧ d = s.draft depth by
    obtain ⟨s, hs, hd⟩ := this
    exact ⟨s, hblanks.spells hs, hd⟩
  rw [takeValue?] at htake
  generalize skipBlank cs = w at htake
  split at htake
  · obtain ⟨rfl, rfl⟩ := Prod.mk.inj (Option.some.inj htake)
    exact ⟨_, .null _, rfl⟩
  · obtain ⟨rfl, rfl⟩ := Prod.mk.inj (Option.some.inj htake)
    exact ⟨_, .boolTrue _, rfl⟩
  · obtain ⟨rfl, rfl⟩ := Prod.mk.inj (Option.some.inj htake)
    exact ⟨_, .boolFalse _, rfl⟩
  · next inside =>
      simp only [takeString?, Option.map_eq_some_iff, Prod.exists] at htake
      obtain ⟨text, mid, ⟨codes, mid, hcodes, hmid⟩, hd⟩ := htake
      obtain ⟨rfl, rfl⟩ := Prod.mk.inj hmid
      obtain ⟨rfl, rfl⟩ := Prod.mk.inj hd
      obtain ⟨spelled, hspelled, rfl⟩ := codes_of_takeCodes? hcodes
      rw [List.append_nil]
      exact ⟨_, .string hspelled, rfl⟩
  · next inside =>
      split at htake
      · next hclose =>
          obtain ⟨rfl, rfl⟩ := Prod.mk.inj (Option.some.inj htake)
          exact ⟨_, .emptyArray (.of_skip hclose), rfl⟩
      · obtain ⟨⟨items, mid⟩, hitems, hd⟩ := Option.map_eq_some_iff.mp htake
        obtain ⟨rfl, rfl⟩ := Prod.mk.inj hd
        obtain ⟨ss, hss, rfl⟩ := h.items hitems
        exact ⟨_, .array hss, rfl⟩
  · next inside =>
      split at htake
      · next hclose =>
          obtain ⟨rfl, rfl⟩ := Prod.mk.inj (Option.some.inj htake)
          exact ⟨_, .emptyObject (.of_skip hclose), rfl⟩
      · obtain ⟨⟨fields, mid⟩, hfields, hd⟩ := Option.map_eq_some_iff.mp htake
        obtain ⟨rfl, rfl⟩ := Prod.mk.inj hd
        obtain ⟨fs, hfs, rfl⟩ := h.fields hfields
        exact ⟨.object fs, .object hfs, by simp [Source.draft]⟩
  · obtain ⟨⟨n, mid⟩, hn, hd⟩ := Option.map_eq_some_iff.mp htake
    obtain ⟨rfl, rfl⟩ := Prod.mk.inj hd
    obtain ⟨p, tok, htok, hp, rfl⟩ := Numeral.take?_sound hn
    subst htok
    exact ⟨_, .numeral _ hp, rfl⟩

theorem Sound.items_succ {fuel depth : Nat} {done ds : List Draft} {cs rest : List Char}
    (h : Sound fuel) (htake : takeItems? (fuel + 1) depth done cs = some (ds, rest)) :
    ∃ ss, Spells (.items ss) cs rest ∧ ds = done.reverse ++ Source.drafts depth ss := by
  rw [takeItems?] at htake
  simp only [Option.bind_eq_bind, Option.bind_eq_some_iff, Prod.exists] at htake
  obtain ⟨d, mid, hvalue, htake⟩ := htake
  obtain ⟨s, hs, rfl⟩ := h.value hvalue
  split at htake
  · next next hcomma =>
      obtain ⟨ss, hss, rfl⟩ := h.items htake
      exact ⟨s :: ss, .item hs (.of_skip hcomma) hss, by simp [Source.drafts]⟩
  · next next hclose =>
      obtain ⟨rfl, rfl⟩ := Prod.mk.inj (Option.some.inj htake)
      exact ⟨[s], .lastItem hs (.of_skip hclose), by simp [Source.drafts]⟩
  · cases htake

theorem Sound.fields_succ {fuel depth : Nat} {done fields : Option (List (String × Draft))}
    {cs rest : List Char} (h : Sound fuel)
    (htake : takeFields? (fuel + 1) depth done cs = some (fields, rest)) :
    ∃ fs, Spells (.fields fs) cs rest ∧
      fields = done.bind fun before =>
        (Source.fieldDrafts? depth fs).map (before.reverse ++ ·) := by
  have hkey : ∃ codes inside, SpellsKey codes cs inside := by
    rw [takeFields?] at htake
    split at htake
    · next hq =>
        obtain ⟨⟨key, mid⟩, hquote, htake⟩ := Option.bind_eq_some_iff.mp htake
        simp only [takeString?, Option.map_eq_some_iff, Prod.exists] at hquote
        obtain ⟨codes, mid, hcodes, hmid⟩ := hquote
        obtain ⟨rfl, rfl⟩ := Prod.mk.inj hmid
        obtain ⟨spelled, hspelled, rfl⟩ := codes_of_takeCodes? hcodes
        dsimp only at htake
        split at htake
        · next hc => exact ⟨spelled, _, .of_skip hq, hspelled, .of_skip hc⟩
        · cases htake
    · cases htake
  obtain ⟨codes, inside, hkey⟩ := hkey
  rw [takeFields?_key hkey] at htake
  simp only [Option.bind_eq_some_iff, Prod.exists] at htake
  obtain ⟨d, mid, hvalue, htake⟩ := htake
  obtain ⟨s, hs, rfl⟩ := h.value hvalue
  split at htake
  · next next hcomma =>
      obtain ⟨fs, hfs, rfl⟩ := h.fields htake
      exact ⟨(codes, s) :: fs, .field hkey hs (.of_skip hcomma) hfs, bind_fieldDrafts?_cons ..⟩
  · next next hclose =>
      obtain ⟨rfl, rfl⟩ := Prod.mk.inj (Option.some.inj htake)
      exact ⟨[(codes, s)], .lastField hkey hs (.of_skip hclose),
        (map_reverse_eq_bind ..).trans (bind_fieldDrafts?_cons ..)⟩
  · cases htake

theorem sound (fuel : Nat) : Sound fuel := by
  induction fuel with
  | zero => exact ⟨nofun, nofun, nofun⟩
  | succ fuel ih => exact ⟨ih.value_succ, ih.items_succ, ih.fields_succ⟩

/-! ## Whole texts -/

/-- A text is read as the draft of what it spells, and only a text that is JSON is read. -/
theorem Draft.ofText?_eq_some_iff {s : String} {d : Draft} :
    Draft.ofText? s = some d ↔ ∃ source, IsText s source ∧ d = source.draft 0 := by
  have hskip {cs : List Char} : skipBlank cs = [] ↔ Blanks cs [] := by
    constructor
    · intro h
      exact h ▸ Blanks.skipBlank_self cs
    · intro h
      rw [h.skipBlank_eq]
      rfl
  constructor
  · intro h
    rw [Draft.ofText?, Draft.take?] at h
    split at h
    · next d' rest htake =>
        split at h
        · next hrest =>
            obtain rfl := Option.some.inj h
            obtain ⟨source, hs, rfl⟩ := (sound _).value htake
            exact ⟨source, ⟨rest, hs, hskip.mp hrest⟩, rfl⟩
        · cases h
    · cases h
  · rintro ⟨source, ⟨rest, hs, hrest⟩, rfl⟩
    have hends : Ends rest := fun c hc => by
      cases hrest with
      | nil => cases hc
      | cons hblank _ =>
          obtain rfl := Option.some.inj hc
          exact Blanks.ends_blank hblank
    have htake := hs.isTaken (2 * s.length + 2) 0 (by rw [String.length_toList]; omega) hends
    rw [Draft.ofText?, Draft.take?, htake]
    simp [hskip.mpr hrest]

end CestWriter.Json
