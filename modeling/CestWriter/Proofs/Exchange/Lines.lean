import CestWriter.Exchange.Wire
import CestWriter.Proofs.Json.Line
import CestWriter.Proofs.Text.Blank
import CestWriter.Proofs.Text.Cut

/-! # Lines and their answers

Each line of a connection is answered on its own, by one line, unless it is blank. -/

namespace CestWriter

open Json (IsText Lossless)

/-! ## Lines -/

namespace Wire

theorem splitLines_append {cs : List Char} (h : '\n' ∉ cs) (run rest : List Char) :
    splitLines run (cs ++ '\n' :: rest) =
      String.ofList (run.reverse ++ cs) :: splitLines [] rest := by
  induction cs generalizing run with
  | nil => simp [splitLines]
  | cons c cs ih =>
      rw [List.mem_cons, not_or] at h
      rw [List.cons_append, splitLines, if_neg (Ne.symm h.1), ih h.2]
      simp

/-- A text with one line feed at its end is one line. -/
theorem lines_lineFeed {line : String} (h : '\n' ∉ line.toList) : lines (line ++ "\n") = [line] := by
  rw [lines, String.toList_append]
  show splitLines [] (line.toList ++ '\n' :: []) = [line]
  rw [splitLines_append h]
  simp [splitLines]

theorem filterMap_splitLines {β : Type} {f : String → Option β} (hf : f "" = none)
    {run cs part : List Char} {parts : List (List Char)} (h : Text.splitChars '\n' cs = part :: parts) :
    (splitLines run cs).filterMap f =
      ((run.reverse ++ part) :: parts).filterMap fun cs => f (String.ofList cs) := by
  induction cs generalizing run part parts with
  | nil =>
      obtain ⟨rfl, rfl⟩ := List.cons.inj h
      rw [splitLines]
      split_ifs with hrun
      · subst hrun
        simp [show String.ofList [] = "" from rfl, hf]
      · simp [List.filterMap_cons]
  | cons c cs ih =>
      obtain ⟨next, rest, hcs⟩ := List.exists_cons_of_ne_nil (Text.splitChars_ne_nil '\n' cs)
      rw [Text.splitChars_cons hcs] at h
      rw [splitLines]
      split_ifs at h ⊢ with hc
      · obtain ⟨rfl, rfl⟩ := List.cons.inj h
        rw [List.filterMap_cons, ih hcs, List.append_nil]
        rfl
      · obtain ⟨rfl, rfl⟩ := List.cons.inj h
        rw [ih hcs, List.reverse_cons, List.append_assoc, List.singleton_append]

/-- Where an empty line counts for nothing, the lines of a text are the parts between its line
feeds. -/
theorem filterMap_lines {β : Type} {f : String → Option β} (hf : f "" = none) (text : String) :
    (lines text).filterMap f = (Text.split '\n' text).filterMap f := by
  obtain ⟨part, parts, h⟩ := List.exists_cons_of_ne_nil (Text.splitChars_ne_nil '\n' text.toList)
  rw [lines, filterMap_splitLines hf h, Text.split, h, List.filterMap_map]
  rfl

end Wire

/-! ## Requests -/

/-- The message asks for an export with these options. -/
structure Requests (message options : Json) : Prop where
  haction : message.get? "action" = some (.string "export")
  hentity : message.get? "entity" = some (.string "vendor")
  hlanguage : message.get? "language" = some (.string "php")
  hoptions : message.get? "options" = some options
  ne_null : options ≠ .null
  ne_false : options ≠ .bool false

theorem isExportRequest_iff {message : Json} :
    isExportRequest message = true ↔ ∃ options, Requests message options := by
  have hword (key word : String) : ((message.get? key).bind Json.string? == some word) = true ↔
      message.get? key = some (.string word) := by
    rw [beq_iff_eq, Option.bind_eq_some_iff]
    constructor
    · rintro ⟨v, hv, h⟩
      cases v <;> cases h
      exact hv
    · exact fun h => ⟨_, h, rfl⟩
  have hnegative {v : Json} : v.isNegative = false ↔ v ≠ .null ∧ v ≠ .bool false := by
    unfold Json.isNegative
    split <;> simp_all
  simp only [isExportRequest, Bool.and_eq_true, hword]
  constructor
  · rintro ⟨⟨⟨haction, hentity⟩, hlanguage⟩, hoptions⟩
    cases ho : message.get? "options" with
    | none => simp [ho] at hoptions
    | some options =>
        obtain ⟨hnull, hfalse⟩ := hnegative.mp (by simpa [ho] using hoptions)
        exact ⟨options, haction, hentity, hlanguage, ho, hnull, hfalse⟩
  · rintro ⟨options, h⟩
    refine ⟨⟨⟨h.haction, h.hentity⟩, h.hlanguage⟩, ?_⟩
    simpa [h.hoptions] using hnegative.mpr ⟨h.ne_null, h.ne_false⟩

namespace Reply

/-- A reply is read back from what is written for it. -/
theorem ofPeer_write (r : Reply) : ofPeer (.ok r.write) = .ok (some r) := by
  cases r <;> rfl

theorem write_eq_object (r : Reply) : ∃ fields, r.write = .object fields := by
  cases r <;> exact ⟨_, rfl⟩

theorem lossless_write (r : Reply) : Lossless 1 r.write := by
  cases r with
  | exported body filename =>
      exact .object (List.forall_mem_cons.mpr ⟨.string _, List.forall_mem_singleton.mpr (.string _)⟩)
  | failed error status =>
      exact .object (List.forall_mem_cons.mpr ⟨.string _, List.forall_mem_singleton.mpr (.string _)⟩)

theorem ordered_write (r : Reply) : r.write.Ordered := by
  have hpair {first second a b : String} (h : first < second) :
      (Json.object [(first, .string a), (second, .string b)]).Ordered :=
    .object (List.pairwise_pair.mpr h)
      (List.forall_mem_cons.mpr ⟨.string a, List.forall_mem_singleton.mpr (.string b)⟩)
  cases r with
  | exported body filename => exact hpair (by decide)
  | failed error status => exact hpair (by decide)

end Reply

/-! ## Answers -/

namespace Exporter

variable (e : Exporter)

/-- The response for options of a request. -/
def respond (options : Json) : Reply :=
  match ExportRequest.shape.decode options with
  | .ok r => .ofResult (e.exportRequest r)
  | .error m => .fatal (ExportError.misfit m).message

/-- What a line is answered with. The text that counts is the line without the blanks around it. -/
inductive Answers (line : String) : Option Json → Prop
  | blank (h : ∀ c ∈ line.toList, Text.isBlank c = true) : Answers line none
  /-- Not JSON, or nested too deep, or with a number beyond the doubles or half a surrogate pair. -/
  | unreadable (hline : ∃ c ∈ line.toList, Text.isBlank c = false)
    (h : ∀ source, IsText (Text.trim line) source →
      ¬(source.Legible ∧ source.depth ≤ Json.maxDepth)) :
    Answers line (some (Reply.fatal "Invalid JSON: <json>").write)
  | ignored {source : Json.Source} {message : Json} (hs : IsText (Text.trim line) source)
    (hv : (source.draft 0).value? = some message) (h : ∀ options, ¬Requests message options) :
    Answers line (some .null)
  | answered {source : Json.Source} {message options reply : Json}
    (hs : IsText (Text.trim line) source) (hv : (source.draft 0).value? = some message)
    (h : Requests message options) (hobject : ∃ fields, reply = .object fields)
    (hreply : Reply.ofPeer (.ok reply) = .ok (some (e.respond options))) : Answers line (some reply)

theorem answer_eq_some {message options : Json} (h : Requests message options) :
    e.answer message = some (e.respond options) := by
  rw [answer, if_pos (isExportRequest_iff.mpr ⟨options, h⟩), h.hoptions]
  rfl

theorem answer_eq_none {message : Json} (h : ∀ options, ¬Requests message options) :
    e.answer message = none := by
  rw [answer, if_neg]
  rw [isExportRequest_iff]
  exact fun ⟨options, hr⟩ => h options hr

theorem answerLine_of_blank {line : String} (h : ∀ c ∈ line.toList, Text.isBlank c = true) :
    e.answerLine line = none := by
  rw [answerLine, if_pos (Text.trim_isEmpty_iff.mpr h)]

theorem answerLine_eq {line : String} (h : ¬∀ c ∈ line.toList, Text.isBlank c = true) :
    e.answerLine line = some (match Json.ofText? (Text.trim line) with
      | none => (Reply.fatal ExportError.badText.message).write
      | some message => Json.ofOption Reply.write (e.answer message)) := by
  have hfull : ¬ (Text.trim line).isEmpty = true := fun hempty => h (Text.trim_isEmpty_iff.mp hempty)
  cases hv : Json.ofText? (Text.trim line) <;> simp only [answerLine, if_neg hfull, hv]

/-- Every line has its answer. -/
theorem answers_answerLine (line : String) : e.Answers line (e.answerLine line) := by
  by_cases hblank : ∀ c ∈ line.toList, Text.isBlank c = true
  · rw [e.answerLine_of_blank hblank]
    exact .blank hblank
  · rw [e.answerLine_eq hblank]
    cases hv : Json.ofText? (Text.trim line) with
    | none =>
        refine .unreadable (by simpa using hblank) fun source hs hlegible => ?_
        have hsome := Json.isSome_ofText?_iff.mpr ⟨source, hs, hlegible⟩
        rw [hv] at hsome
        cases hsome
    | some message =>
        obtain ⟨d, hd, hvalue⟩ := Option.bind_eq_some_iff.mp hv
        obtain ⟨source, hs, rfl⟩ := Json.Draft.ofText?_eq_some_iff.mp hd
        by_cases hr : ∃ options, Requests message options
        · obtain ⟨options, hr⟩ := hr
          show Answers e line (some (Json.ofOption Reply.write (e.answer message)))
          rw [e.answer_eq_some hr]
          exact .answered hs hvalue hr (Reply.write_eq_object _) (Reply.ofPeer_write _)
        · rw [not_exists] at hr
          show Answers e line (some (Json.ofOption Reply.write (e.answer message)))
          rw [e.answer_eq_none hr]
          exact .ignored hs hvalue hr

/-- An answer is read back from its text. -/
theorem readable_of_answerLine {line : String} {reply : Json} (h : e.answerLine line = some reply) :
    Lossless 1 reply ∧ reply.Ordered := by
  by_cases hblank : ∀ c ∈ line.toList, Text.isBlank c = true
  · rw [e.answerLine_of_blank hblank] at h
    cases h
  · rw [e.answerLine_eq hblank] at h
    obtain rfl := Option.some.inj h
    split
    · exact ⟨Reply.lossless_write _, Reply.ordered_write _⟩
    · next message _ =>
        cases e.answer message with
        | none => exact ⟨.null, .null⟩
        | some r => exact ⟨r.lossless_write, r.ordered_write⟩

/-- What is sent back for a text: a line for each of its lines that is not blank, in order. -/
theorem serve_eq (text : String) : e.serve text =
    String.join ((Text.split '\n' text).filterMap fun line =>
      (e.answerLine line).map fun reply => reply.render ++ "\n") := by
  rw [serve, Wire.filterMap_lines]
  rw [e.answerLine_of_blank (by simp)]
  rfl

theorem serve_line {line : String} (h : '\n' ∉ line.toList) {reply : Json}
    (hreply : e.answerLine line = some reply) : e.serve (line ++ "\n") = reply.render ++ "\n" := by
  rw [serve, Wire.lines_lineFeed h, List.filterMap_cons, hreply]
  simp

end Exporter

/-! ## Messages -/

namespace Json

theorem lineFeed_notMem_render (v : Json) : '\n' ∉ v.render.toList :=
  fun h => absurd (v.le_toNat_of_mem_render _ h) (by decide)

end Json

/-- A value that is sent as a line is received. -/
theorem Wire.receive_render {v : Json} (hlossless : Lossless Json.maxDepth v) (hordered : v.Ordered) :
    Wire.receive (.sends (v.render ++ "\n")) = .ok v := by
  have hread : Json.ofText? v.render = some v := by
    rw [Json.ofText?_of_isText v.isText_render, hlossless.draft_source (Nat.zero_add _).le,
      hordered.value?_draft]
  simp only [Wire.receive, Wire.lines_lineFeed v.lineFeed_notMem_render, (v.trimmed_render).trim, hread]

/-- A message is never blank, so it is answered. -/
theorem Exporter.exists_answerLine_render (e : Exporter) (v : Json) :
    ∃ reply, e.answerLine v.render = some reply := by
  obtain ⟨c, hc, hblank⟩ := v.trimmed_render.head
  rw [e.answerLine_eq fun h => ?_]
  · exact ⟨_, rfl⟩
  · rw [h c (List.mem_of_mem_head? hc)] at hblank
    cases hblank

end CestWriter
