import CestWriter.Proofs.Emission.Template
import CestWriter.Proofs.Recording.Prepared
import CestWriter.Proofs.Recording.Names
import Mathlib.Data.List.Forall2

/-! # What follows a template

The relation is between pieces and parts, so it says nothing of how either becomes text. What the
locators and the names of variables look like is left to the reader of a template. -/

namespace CestWriter

open Php (Piece Statement)
open Emission (scriptArguments keyArguments)

/-- What is known of the expressions and of the names that fill the holes of a template. -/
structure Holes where
  locator : String → Prop
  option : String → Prop
  name : String → Prop

/-- The pieces that a part of a template stands for. -/
inductive Part.Matches (H : Holes) : Part → Statement → Prop
  | code {text} : Matches H (.code text) [.code text]
  | literal {value} : Matches H .literal [.literal value]
  | slot {name} (h : H.name name) : Matches H .slot [.slot name]
  | expression {p : String} (h : Prepared p.toList) : Matches H .expression [.quoted p]
  | locator {e} (h : H.locator e) : Matches H .locator [.expression e]
  | option {e} (h : H.option e) : Matches H .option [.expression e]
  | integer {n} : Matches H .integer [.int n]
  | word {name : String} (h : ∀ c ∈ name.toList, Text.isNameChar c = true) :
      Matches H .word [.word name]
  | slots {argv : List String} (h : ∀ name ∈ argv, IsName name.toList) :
      Matches H .slots (scriptArguments argv)
  | keys {raw} : Matches H .keys (keyArguments (Argument.keys raw))

/-- A statement that is made of matching pieces, part after part. -/
inductive Follows (H : Holes) : Statement → Row → Prop
  | nil : Follows H [] []
  | cons {p x s row} (h : p.Matches H x) : Follows H s row → Follows H (x ++ s) (p :: row)

/-- Statements that follow the rows of a template, at their levels. -/
def FollowAll (H : Holes) : Form.Lines → List (Nat × Row) → Prop :=
  List.Forall₂ fun line row => line.1 = row.1 ∧ Follows H line.2 row.2

/-- A row is never written as an empty text. -/
def Row.isVisible : Row → Bool
  | .code text :: _ => !text.isEmpty
  | .slot :: _ => true
  | _ => false

/-- A fragment has the lines and the shifts of level of a template. -/
structure Fragment.Follows (H : Holes) (f : Fragment) (t : Template) : Prop where
  before : f.before = t.before
  after : f.after = t.after
  lines : List.Forall₂ (fun line row => line.level = row.1 ∧
    ∃ s, line.statement = Statement.render s ∧ CestWriter.Follows H s row.2) f.lines t.rows

variable {H : Holes}

/-! ## Rules for statements -/

namespace Follows

variable {s s' : Statement} {row row' : Row}

theorem one {p : Part} {x : Statement} (h : p.Matches H x) : Follows H x [p] := by
  simpa using cons h nil

theorem append (h : Follows H s row) (h' : Follows H s' row') : Follows H (s ++ s') (row ++ row') := by
  induction h with
  | nil => exact h'
  | cons hp _ ih => simpa using cons hp ih

theorem code {text : String} (h : Follows H s row) : Follows H (.code text :: s) (.code text :: row) :=
  cons (x := [.code text]) .code h

theorem literal {value : String} (h : Follows H s row) :
    Follows H (.literal value :: s) (.literal :: row) :=
  cons (x := [.literal value]) .literal h

theorem slot {name : String} (hn : H.name name) (h : Follows H s row) :
    Follows H (.slot name :: s) (.slot :: row) :=
  cons (x := [.slot name]) (.slot hn) h

theorem quoted {p : String} (hp : Prepared p.toList) (h : Follows H s row) :
    Follows H (.quoted p :: s) (.expression :: row) :=
  cons (x := [.quoted p]) (.expression hp) h

theorem locator {e : String} (he : H.locator e) (h : Follows H s row) :
    Follows H (.expression e :: s) (.locator :: row) :=
  cons (x := [.expression e]) (.locator he) h

theorem option {e : String} (he : H.option e) (h : Follows H s row) :
    Follows H (.expression e :: s) (.option :: row) :=
  cons (x := [.expression e]) (.option he) h

theorem int {n : Int} (h : Follows H s row) : Follows H (.int n :: s) (.integer :: row) :=
  cons (x := [.int n]) .integer h

theorem word {name : String} (hn : ∀ c ∈ name.toList, Text.isNameChar c = true)
    (h : Follows H s row) : Follows H (.word name :: s) (.word :: row) :=
  cons (x := [.word name]) (.word hn) h

theorem commas {args : List Statement} {rows : List Row} (h : List.Forall₂ (Follows H) args rows) :
    Follows H (Statement.commas args) (Row.commas rows) := by
  induction h with
  | nil => exact nil
  | cons hx hrest ih =>
      cases hrest with
      | nil => simpa [Statement.commas, Row.commas] using hx
      | cons hy hrest => simpa [Statement.commas, Row.commas] using hx.append (code ih)

theorem act {method : String} {args : List Statement} {rows : List Row}
    (h : List.Forall₂ (Follows H) args rows) :
    Follows H (Statement.act method args) (Row.act method rows) :=
  code (code (code ((commas h).append (code nil))))

theorem assign {name : String} {value : Statement} (hn : H.name name) (hne : name.isEmpty = false)
    (h : Follows H value row) : Follows H (Statement.assign name value) (Row.assign row) := by
  simp only [Statement.assign, hne, Bool.false_eq_true, if_false]
  exact slot hn (code (h.append (code nil)))

theorem script {before after raw : String} :
    Follows H (Emission.runInPage before after (Argument.script raw)) Row.script :=
  code (literal (cons (.slots fun _ hm => Argument.isName_of_mem_argv hm) (code nil)))

end Follows

theorem Php.Statement.toList_render (s : Statement) :
    (Statement.render s).toList = s.flatMap fun piece => piece.render.toList := by
  simp [Statement.render, String.toList_join, List.flatMap_map]

theorem Php.Statement.toList_render_append (s t : Statement) :
    (Statement.render (s ++ t)).toList = (Statement.render s).toList ++ (Statement.render t).toList := by
  simp only [Statement.toList_render, List.flatMap_append]

theorem Php.Statement.render_nil : Statement.render [] = "" :=
  rfl

theorem Php.Statement.render_cons (piece : Piece) (s : Statement) :
    Statement.render (piece :: s) = piece.render ++ Statement.render s := by
  rw [← String.toList_inj, String.toList_append, toList_render, toList_render, List.flatMap_cons]

theorem Follows.render_ne_empty {s : Statement} {row : Row} (h : Follows H s row)
    (hv : row.isVisible = true) : (Statement.render s).isEmpty = false := by
  rw [Bool.eq_false_iff, ne_eq, String.isEmpty_iff, ← String.toList_eq_nil_iff,
    Statement.toList_render]
  cases h with
  | nil => simp [Row.isVisible] at hv
  | cons hp _ =>
      cases hp with
      | code =>
          intro hnil
          simp_all [Row.isVisible, Piece.render]
      | slot _ => simp [Piece.render, Php.slot]
      | _ => simp [Row.isVisible] at hv

/-! ## Rules for lines -/

namespace FollowAll

variable {lines lines' : Form.Lines} {rows rows' : List (Nat × Row)}

theorem one {n : Nat} {s : Statement} {row : Row} (h : Follows H s row) :
    FollowAll H [(n, s)] [(n, row)] :=
  .cons ⟨rfl, h⟩ .nil

theorem append (h : FollowAll H lines rows) (h' : FollowAll H lines' rows') :
    FollowAll H (lines ++ lines') (rows ++ rows') :=
  List.rel_append h h'

theorem withDriver {shared : Option String} {body : List Statement} {bodyRows : List Row}
    (h : List.Forall₂ (Follows H) body bodyRows) :
    FollowAll H (Form.withDriver shared body) (Row.withDriver shared bodyRows) := by
  have hbody : FollowAll H (body.map ((1, ·))) (bodyRows.map ((1, ·))) := by
    induction h with
    | nil => exact .nil
    | cons hs _ ih => exact .cons ⟨rfl, hs⟩ ih
  have hclose : FollowAll H [(0, [.code "\x7d);"])] [(0, [.code "\x7d);"])] := one (.code .nil)
  cases shared with
  | none => exact .cons ⟨rfl, .code .nil⟩ (hbody.append hclose)
  | some temporary => exact .cons ⟨rfl, .code (.code (.code .nil))⟩ (hbody.append hclose)

theorem fetchElement {e : String} (he : H.locator e) :
    FollowAll H (Form.fetchElement e) Row.fetchElement :=
  .cons ⟨rfl, .code .nil⟩ (withDriver (.cons (.code (.locator he (.code .nil))) .nil))

end FollowAll

/-! ## Rules for forms -/

namespace Form

variable {s : Statement} {row : Row}

theorem mem_lines_block {lines : Form.Lines} {before after : Int} {n : Nat} {s : Statement}
    (h : (n, s) ∈ lines) : ⟨n, s.render⟩ ∈ (block lines before after).render.lines :=
  List.mem_map.mpr ⟨(n, s), h, rfl⟩

theorem mem_lines_statement {s : Statement} (h : s.render.isEmpty = false) :
    ⟨0, s.render⟩ ∈ (statement s).render.lines := by
  rw [render, Fragment.lines, h]
  exact List.mem_singleton.mpr rfl

theorem block_follows {lines : Form.Lines} {rows : List (Nat × Row)} {before after : Int}
    (h : FollowAll H lines rows) : (block lines before after).render.Follows H ⟨rows, before, after⟩ := by
  refine ⟨rfl, rfl, ?_⟩
  refine List.forall₂_map_left_iff.mpr (h.imp ?_)
  rintro ⟨n, s⟩ row ⟨hn, hs⟩
  exact ⟨hn, s, rfl, hs⟩

theorem flat_follows {lines : Form.Lines} {rows : List (Nat × Row)} (h : FollowAll H lines rows) :
    (flat lines).render.Follows H (.flat rows) :=
  block_follows h

theorem statement_follows (h : Follows H s row) (hv : row.isVisible = true) :
    (statement s).render.Follows H (.statement row) := by
  refine ⟨rfl, rfl, ?_⟩
  simp only [render, Fragment.lines, h.render_ne_empty hv, Bool.false_eq_true, if_false]
  exact .cons ⟨rfl, s, rfl, h⟩ .nil

theorem nothing_follows : (statement []).render.Follows H .nothing :=
  ⟨rfl, rfl, .nil⟩

theorem act_follows {method : String} {args : List Statement} {rows : List Row}
    (h : List.Forall₂ (Follows H) args rows) :
    (act method args).render.Follows H (.act method rows) :=
  statement_follows (.act h) rfl

theorem assign_follows {name : String} (hn : H.name name) (h : Follows H s row) :
    ∃ t ∈ [Template.nothing, .statement (Row.assign row)],
      (statement (Statement.assign name s)).render.Follows H t := by
  cases hne : name.isEmpty with
  | true => exact ⟨_, .head _, by simpa [Statement.assign, hne] using nothing_follows⟩
  | false => exact ⟨_, .tail _ (.head _), statement_follows (.assign hn hne h) rfl⟩

theorem capture_follows {temporary name : String} (hn : H.name name) (h : Follows H s row) :
    ∃ t ∈ Template.capture temporary row, (capture temporary s name).render.Follows H t := by
  have hrow : Follows H
      ([Piece.code "$", .code temporary, .code " = "] ++ s ++ [Piece.code ";"])
      ([Part.code "$", .code temporary, .code " = "] ++ row ++ [Part.code ";"]) :=
    .code (.code (.code (h.append (.code .nil))))
  have hnull : FollowAll H [(0, [.code "$", .code temporary, .code " = null;"])]
      [(0, [.code "$", .code temporary, .code " = null;"])] :=
    .one (.code (.code (.code .nil)))
  have hdriver : FollowAll H (Form.withDriver (some temporary) _)
      (Row.withDriver (some temporary) _) :=
    .withDriver (.cons hrow .nil)
  have hread := hnull.append hdriver
  cases hne : name.isEmpty with
  | true =>
      refine ⟨_, .head _, ?_⟩
      simpa [capture, hne] using flat_follows hread
  | false =>
      refine ⟨_, .tail _ (.head _), ?_⟩
      have hassign : Follows H (Statement.assign name [.code "$", .code temporary])
          (Row.assign [.code "$", .code temporary]) :=
        .assign hn hne (.code (.code .nil))
      have hkeep := hread.append (.one (n := 0) hassign)
      simpa [capture, hne] using flat_follows hkeep

end Form

end CestWriter
