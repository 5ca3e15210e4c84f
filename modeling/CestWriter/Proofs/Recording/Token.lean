import CestWriter.Proofs.Text.Name
import CestWriter.Recording.Segment
import Mathlib.Data.List.Basic

/-! # The references of a recorded argument

An argument is a sequence of characters and well-formed references `${name}`. The rules do not
invoke the splitter. -/

namespace CestWriter

open Text (isNameChar)

/-- A name that a reference can hold. -/
def IsName (name : List Char) : Prop :=
  name ≠ [] ∧ ∀ c ∈ name, isNameChar c = true

/-- A well-formed reference stands at the beginning. -/
def BeginsReference (cs : List Char) : Prop :=
  ∃ name rest, IsName name ∧ cs = '$' :: '{' :: name ++ '}' :: rest

inductive Token
  | char (c : Char)
  | reference (name : String)
  deriving DecidableEq

/-- A character stands for itself and a reference for the value of its variable. -/
def Token.value (ρ : String → String) : Token → List Char
  | char c => [c]
  | reference name => (ρ name).toList

/-- The characters and references of an argument, in order. A character counts as such where no
well-formed reference begins. -/
inductive Tokens : List Char → List Token → Prop
  | nil : Tokens [] []
  | reference {name rest ts} (h : IsName name) : Tokens rest ts →
      Tokens ('$' :: '{' :: name ++ '}' :: rest) (.reference (String.ofList name) :: ts)
  | char {c rest ts} (h : ¬ BeginsReference (c :: rest)) : Tokens rest ts →
      Tokens (c :: rest) (.char c :: ts)

/-! ## Finding one reference -/

theorem isNameChar_brace : isNameChar '}' = false := by decide

namespace Segment

theorem nameAt?_reference {name : List Char} (h : IsName name) (rest : List Char) :
    nameAt? ('$' :: '{' :: name ++ '}' :: rest) = some name := by
  obtain ⟨hne, hall⟩ := h
  cases name with
  | nil => exact (hne rfl).elim
  | cons c cs =>
      have hrest : ∀ d ∈ ('}' :: rest).head?, isNameChar d = false := by simpa using isNameChar_brace
      have ht := Text.takeWhile_run hall hrest
      have hd := Text.dropWhile_run hall hrest
      simp only [List.cons_append] at ht hd ⊢
      simp only [nameAt?, ht, hd]

theorem eq_of_nameAt? {cs name : List Char} (h : nameAt? cs = some name) :
    IsName name ∧ ∃ rest, cs = '$' :: '{' :: name ++ '}' :: rest := by
  unfold nameAt? at h
  split at h
  · rename_i rest
    split at h
    · rename_i c cs after ht hd
      obtain rfl := Option.some.inj h
      refine ⟨⟨by simp, ?_⟩, after, ?_⟩
      · rw [← ht, ← List.all_eq_true]
        exact List.all_takeWhile
      · have := List.takeWhile_append_dropWhile (p := isNameChar) (l := rest)
        rw [ht, hd] at this
        simp [← this]
    · simp at h
  · simp at h

theorem nameAt?_eq_some_iff {cs name : List Char} :
    nameAt? cs = some name ↔ IsName name ∧ ∃ rest, cs = '$' :: '{' :: name ++ '}' :: rest := by
  refine ⟨eq_of_nameAt?, ?_⟩
  rintro ⟨h, rest, rfl⟩
  exact nameAt?_reference h rest

theorem nameAt?_eq_none_iff {cs : List Char} : nameAt? cs = none ↔ ¬ BeginsReference cs := by
  rw [Option.eq_none_iff_forall_not_mem]
  constructor
  · rintro h ⟨name, rest, hn, rfl⟩
    exact h name (nameAt?_reference hn rest)
  · intro h name hm
    obtain ⟨hn, rest, rfl⟩ := eq_of_nameAt? hm
    exact h ⟨name, rest, hn, rfl⟩

end Segment

/-! ## One reading of each argument -/

theorem BeginsReference.head {c : Char} {rest : List Char} (h : BeginsReference (c :: rest)) :
    c = '$' := by
  obtain ⟨name, after, -, he⟩ := h
  exact (List.cons.inj he).1

theorem Tokens.unique {cs : List Char} {ts us : List Token} (ht : Tokens cs ts)
    (hu : Tokens cs us) : ts = us := by
  induction ht generalizing us with
  | nil =>
      generalize he : ([] : List Char) = cs at hu
      cases hu with
      | nil => rfl
      | reference h _ => simp at he
      | char h _ => simp at he
  | @reference name rest ts h _ ih =>
      generalize he : '$' :: '{' :: name ++ '}' :: rest = cs at hu
      cases hu with
      | nil => simp at he
      | @reference other rest' us h' hu =>
          have hn := Segment.nameAt?_reference h rest
          rw [he, Segment.nameAt?_reference h' rest'] at hn
          obtain rfl := Option.some.inj hn
          have hr : rest = rest' := by simpa using he
          subst hr
          rw [ih hu]
      | char h' _ => exact (h' ⟨name, rest, h, he.symm⟩).elim
  | @char c rest ts h _ ih =>
      generalize he : c :: rest = cs at hu
      cases hu with
      | nil => simp at he
      | @reference name rest' us h' _ => exact (h ⟨name, rest', h', he⟩).elim
      | char h' hu =>
          obtain ⟨rfl, rfl⟩ := List.cons.inj he
          rw [ih hu]

/-! ## The splitter finds them -/

/-- A segment taken apart: a literal run into its characters. -/
def Segment.tokens : Segment → List Token
  | .literal s => s.toList.map .char
  | .reference name => [.reference name]

namespace Segment

theorem tokens_flush (run : List Char) : (flush run).flatMap tokens = run.reverse.map .char := by
  cases run with
  | nil => rfl
  | cons c cs => simp [flush, tokens]

/-- The first `skip` characters are passed over; the rest is taken apart as the rules say, after
the characters of the run that is still open. -/
theorem split_tokens (skip : Nat) (run cs : List Char) :
    ∃ ts, Tokens (cs.drop skip) ts ∧
      (split skip run cs).flatMap tokens = run.reverse.map .char ++ ts := by
  induction cs generalizing skip run with
  | nil => exact ⟨[], by simpa using Tokens.nil, by simp [split, tokens_flush]⟩
  | cons c cs ih =>
      cases skip with
      | succ skip => simpa [split] using ih skip run
      | zero =>
          rw [split]
          cases hn : nameAt? (c :: cs) with
          | some name =>
              obtain ⟨hname, rest, he⟩ := eq_of_nameAt? hn
              obtain ⟨rfl, rfl⟩ := List.cons.inj he
              obtain ⟨ts, hts, hs⟩ := ih (name.length + 2) []
              have hdrop : List.drop (name.length + 2) (('{' :: name).append ('}' :: rest)) = rest := by
                simp
              refine ⟨.reference (String.ofList name) :: ts, ?_, ?_⟩
              · exact .reference hname (by simpa only [hdrop, List.drop_succ_cons, List.drop_zero] using hts)
              · simpa [List.flatMap_append, tokens_flush, tokens] using hs
          | none =>
              have hb := nameAt?_eq_none_iff.mp hn
              simp only
              split
              · rename_i ho
                obtain ⟨rfl, ho⟩ := ho
                -- The brace is passed over: neither of the two characters begins a reference.
                cases cs with
                | nil => simp at ho
                | cons d cs =>
                    obtain rfl : d = '{' := by simpa using ho
                    obtain ⟨ts, hts, hs⟩ := ih 1 []
                    have hd : ¬ BeginsReference ('{' :: cs) := fun h => by
                      have := h.head
                      simp at this
                    refine ⟨.char '$' :: .char '{' :: ts, .char hb (.char hd ?_), ?_⟩
                    · simpa using hts
                    · simpa [List.flatMap_append, tokens_flush] using hs
              · obtain ⟨ts, hts, hs⟩ := ih 0 (c :: run)
                refine ⟨.char c :: ts, .char hb (by simpa using hts), ?_⟩
                simpa using hs

/-- The segments of an argument, taken apart, are its characters and references and no others. -/
theorem tokens_iff (raw : String) (ts : List Token) :
    Tokens raw.toList ts ↔ (ofText raw).flatMap tokens = ts := by
  obtain ⟨us, hus, hs⟩ := split_tokens 0 [] raw.toList
  have he : (ofText raw).flatMap tokens = us := by simpa [ofText] using hs
  have htok : Tokens raw.toList us := by simpa using hus
  constructor
  · intro h
    rw [he, htok.unique h]
  · rintro rfl
    rwa [he]

end Segment

end CestWriter
