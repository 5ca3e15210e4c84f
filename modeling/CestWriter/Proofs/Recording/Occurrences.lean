import CestWriter.Proofs.Recording.Interpolation

/-! # The references are all occurrences

The segments of an argument, put together again, are the argument. Its references stand at exactly
the places where a well-formed reference occurs, also where an opening one was not completed before
it. -/

namespace CestWriter

/-- A well-formed reference of this name stands at this place of a text. -/
def Occurs (cs : List Char) (place : Nat) (name : List Char) : Prop :=
  IsName name ∧ ∃ rest, cs.drop place = '$' :: '{' :: name ++ '}' :: rest

/-! ## Where a reference can occur -/

theorem dollar_not_mem_name {name : List Char} (h : IsName name) : '$' ∉ '{' :: name ++ ['}'] := by
  have hname : '$' ∉ name := fun hm => absurd (h.2 '$' hm) (by decide)
  simpa using hname

/-- Every reference begins with a dollar sign, so none begins in a text that has none. -/
theorem occurs_append_iff {xs ys name : List Char} (h : '$' ∉ xs) {place : Nat} :
    Occurs (xs ++ ys) place name ↔ ∃ later, place = xs.length + later ∧ Occurs ys later name := by
  induction xs generalizing place with
  | nil => simp
  | cons x xs ih =>
      obtain ⟨hx, hxs⟩ := not_or.mp (mt List.mem_cons.mpr h)
      cases place with
      | zero =>
          constructor
          · rintro ⟨-, rest, he⟩
            exact absurd (List.cons.inj he).1.symm hx
          · rintro ⟨later, he, -⟩
            rw [List.length_cons] at he
            omega
      | succ place =>
          have hstep : Occurs (x :: xs ++ ys) (place + 1) name ↔ Occurs (xs ++ ys) place name := Iff.rfl
          rw [hstep, ih hxs]
          refine exists_congr fun later => and_congr_left fun _ => ?_
          rw [List.length_cons]
          omega

/-- At its own place a reference occurs under its own name. -/
theorem occurs_zero_iff {name other rest : List Char} (h : IsName name) :
    Occurs ('$' :: '{' :: name ++ '}' :: rest) 0 other ↔ other = name := by
  have hfind : Segment.nameAt? ('$' :: '{' :: name ++ '}' :: rest) = some other ↔
      Occurs ('$' :: '{' :: name ++ '}' :: rest) 0 other := Segment.nameAt?_eq_some_iff
  rw [Segment.nameAt?_reference h, Option.some.injEq] at hfind
  exact hfind.symm.trans eq_comm

/-! ## Tokens and their places -/

/-- What a token is written as in an argument. -/
def Token.source : Token → List Char
  | char c => [c]
  | reference name => '$' :: '{' :: name.toList ++ ['}']

/-- The references among tokens, with the places where they begin, counted from `place`. -/
def Token.references : Nat → List Token → List (Nat × String)
  | _, [] => []
  | place, char _ :: ts => references (place + 1) ts
  | place, reference name :: ts =>
    (place, name) :: references (place + (reference name).source.length) ts

namespace Tokens

variable {cs : List Char} {ts : List Token}

theorem source_eq (h : Tokens cs ts) : ts.flatMap Token.source = cs := by
  induction h with
  | nil => rfl
  | reference _ _ ih => simp [Token.source, ih]
  | char _ _ ih => simp [Token.source, ih]

/-- The references of a text are its occurrences of references, at their places. -/
theorem mem_references_iff (h : Tokens cs ts) {start place : Nat} {name : String} :
    (place, name) ∈ Token.references start ts ↔
      ∃ later, place = start + later ∧ Occurs cs later name.toList := by
  induction h generalizing start with
  | nil =>
      refine iff_of_false (by simp [Token.references]) ?_
      rintro ⟨later, -, -, rest, he⟩
      simp at he
  | @reference own rest ts hown _ ih =>
      -- After its dollar sign nothing of a reference is one, so the next begins after it at the earliest.
      have hlength : (Token.reference (String.ofList own)).source.length =
          ('{' :: own ++ ['}']).length + 1 := by
        simp [Token.source]
      rw [Token.references, List.mem_cons, ih, hlength]
      constructor
      · rintro (he | ⟨later, rfl, hlater⟩)
        · obtain ⟨rfl, rfl⟩ := Prod.mk.inj he
          exact ⟨0, rfl, (occurs_zero_iff hown).mpr (by simp)⟩
        · refine ⟨('{' :: own ++ ['}']).length + later + 1, by omega, ?_⟩
          have hafter := (occurs_append_iff (dollar_not_mem_name hown)).mpr ⟨later, rfl, hlater⟩
          simpa [Occurs] using hafter
      · rintro ⟨later, rfl, hlater⟩
        cases later with
        | zero =>
            left
            rw [← String.ofList_toList (s := name), (occurs_zero_iff hown).mp hlater]
            rfl
        | succ later =>
            right
            have hafter : Occurs ('{' :: own ++ ['}'] ++ rest) later name.toList := by
              simpa [Occurs] using hlater
            obtain ⟨last, rfl, hlast⟩ := (occurs_append_iff (dollar_not_mem_name hown)).mp hafter
            exact ⟨last, by omega, hlast⟩
  | @char c rest ts hnot _ ih =>
      rw [Token.references, ih]
      constructor
      · rintro ⟨later, rfl, hlater⟩
        exact ⟨later + 1, by omega, hlater⟩
      · rintro ⟨later, rfl, hlater⟩
        cases later with
        | zero =>
            obtain ⟨hname, after, he⟩ := hlater
            exact (hnot ⟨name.toList, after, hname, he⟩).elim
        | succ later => exact ⟨later, by omega, hlater⟩

end Tokens

namespace Token

theorem le_of_mem_references {ts : List Token} {start : Nat} :
    ∀ r ∈ references start ts, start ≤ r.1 := by
  induction ts generalizing start with
  | nil => simp [references]
  | cons t ts ih =>
      intro r hr
      cases t with
      | char c => exact Nat.le_of_succ_le (ih r hr)
      | reference name =>
          rcases List.mem_cons.mp hr with rfl | hr
          · exact Nat.le_refl start
          · exact Nat.le_trans (Nat.le_add_right ..) (ih r hr)

theorem references_ascending (ts : List Token) (start : Nat) :
    (references start ts).Pairwise fun r s => r.1 < s.1 := by
  induction ts generalizing start with
  | nil => exact .nil
  | cons t ts ih =>
      cases t with
      | char c => exact ih (start + 1)
      | reference name =>
          refine List.pairwise_cons.mpr ⟨fun r hr => ?_, ih _⟩
          have hlength : 0 < (reference name).source.length := by simp [source]
          have hlater := le_of_mem_references r hr
          omega

theorem references_chars (cs : List Char) (ts : List Token) (start : Nat) :
    references start (cs.map char ++ ts) = references (start + cs.length) ts := by
  induction cs generalizing start with
  | nil => rfl
  | cons c cs ih =>
      rw [List.map_cons, List.cons_append, references, ih, List.length_cons]
      congr 1
      omega

end Token

/-! ## Segments -/

namespace Segment

/-- What a segment is written as in an argument. -/
def source : Segment → List Char
  | literal text => text.toList
  | reference name => '$' :: '{' :: name.toList ++ ['}']

/-- The references among segments, with the places where they begin, counted from `place`. -/
def references : Nat → List Segment → List (Nat × String)
  | _, [] => []
  | place, literal text :: rest => references (place + text.length) rest
  | place, reference name :: rest =>
    (place, name) :: references (place + (reference name).source.length) rest

theorem flatMap_source_tokens (s : Segment) : s.tokens.flatMap Token.source = s.source := by
  cases s with
  | literal text => simp [tokens, source, List.flatMap_map, Token.source]
  | reference name => simp [tokens, source, Token.source]

theorem references_eq (segments : List Segment) (start : Nat) :
    references start segments = Token.references start (segments.flatMap tokens) := by
  induction segments generalizing start with
  | nil => rfl
  | cons s rest ih =>
      rw [List.flatMap_cons]
      cases s with
      | literal text => rw [references, ih, tokens, Token.references_chars, String.length_toList]
      | reference name =>
          rw [references, ih]
          rfl

theorem ne_empty_of_mem_flush {run : List Char} {text : String} (h : literal text ∈ flush run) :
    text ≠ "" := by
  cases run with
  | nil => simp [flush] at h
  | cons c cs =>
      obtain rfl := literal.inj (List.mem_singleton.mp h)
      simp

theorem ne_empty_of_mem_split {skip : Nat} {run cs : List Char} {text : String}
    (h : literal text ∈ split skip run cs) : text ≠ "" := by
  fun_induction split skip run cs with
  | case1 skip run => exact ne_empty_of_mem_flush h
  | case2 skip run c cs ih => exact ih h
  | case3 run c cs name hname ih =>
      rcases List.mem_append.mp h with h | h
      · exact ne_empty_of_mem_flush h
      · exact ih (List.mem_of_ne_of_mem (by simp) h)
  | case4 run c cs hname hopen ih =>
      rcases List.mem_append.mp h with h | h
      · exact ne_empty_of_mem_flush h
      · exact ih h
  | case5 run c cs hname hopen ih => exact ih h

/-- An argument is taken apart into literals that are not empty and references to proper names, which
give the argument when they are put together. The references are its occurrences of references, at
their places and in order; none is missed and none is invented. -/
theorem ofText_tokenises (raw : String) :
    (ofText raw).flatMap source = raw.toList ∧
    (∀ text, literal text ∈ ofText raw → text ≠ "") ∧
    (∀ name, reference name ∈ ofText raw → IsName name.toList) ∧
    (references 0 (ofText raw)).Pairwise (fun r s => r.1 < s.1) ∧
    ∀ place name, (place, name) ∈ references 0 (ofText raw) ↔ Occurs raw.toList place name.toList := by
  have htokens : Tokens raw.toList ((ofText raw).flatMap tokens) := (tokens_iff raw _).mpr rfl
  refine ⟨?_, fun text => ne_empty_of_mem_split, fun name hm => ?_, ?_, fun place name => ?_⟩
  · rw [← htokens.source_eq, List.flatMap_assoc]
    simp only [flatMap_source_tokens]
  · have hmem : Token.reference name ∈ (ofText raw).flatMap tokens :=
      List.mem_flatMap.mpr ⟨_, hm, List.mem_singleton.mpr rfl⟩
    exact htokens.named name hmem
  · rw [references_eq]
    exact Token.references_ascending _ 0
  · rw [references_eq, htokens.mem_references_iff]
    simp

/-- A reference stands right after an opening that was not completed. -/
example : references 0 (ofText "$\x7ba$\x7bb\x7d $\x7b$\x7bc\x7d") = [(3, "b"), (10, "c")] := by decide

end Segment

end CestWriter
