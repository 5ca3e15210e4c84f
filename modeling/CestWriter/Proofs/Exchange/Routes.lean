import CestWriter.Exchange.Conversion
import CestWriter.Proofs.Exchange.Lines
import CestWriter.Proofs.Exchange.RoundTrip
import CestWriter.Proofs.Recording.Cutting

/-! # Routes of an export

An export is the same whether it is asked for directly, over a connection, or from a project. -/

namespace CestWriter

open Json (Faithful FieldFaithful Lossless Spelling)
open Json.Record (FieldSpells fieldSpells_field of_field)

/-! ## Values on their way -/

namespace Json

/-- What is written for a value has a value. -/
theorem isSome_value?_draft (v : Json) : v.draft.value?.isSome = true := by
  induction v using ind with
  | null => rfl
  | bool b => rfl
  | number n => rfl
  | string s => rfl
  | array items ih =>
      rw [draft, drafts_eq, Draft.isSome_value?_array, List.forall_mem_map]
      exact ih
  | object fields ih =>
      rw [draft, draftFields_eq, Draft.isSome_value?_object, List.forall_mem_map]
      exact ih

theorem Faithful.spells_source {α : Type} {c : Codec α} {s : Spelling α} {P : α → Prop}
    (h : Faithful c s P) {x : α} (hx : P x) {n depth : Nat} (hlossless : Lossless n (c.write x))
    (hdepth : depth + n ≤ maxDepth) : s x ((c.write x).source.draft depth) := by
  rw [hlossless.draft_source hdepth]
  exact h.spells hx

theorem isSome_value?_source {v : Json} {n depth : Nat} (h : Lossless n v)
    (hdepth : depth + n ≤ maxDepth) : (v.source.draft depth).value?.isSome = true := by
  rw [h.draft_source hdepth]
  exact v.isSome_value?_draft

/-- A value whose text can be read has a value in a few more containers. -/
theorem isSome_value?_deeper {v : Json} (h : (ofText? v.render).isSome = true) {depth : Nat}
    (hdepth : depth + v.nesting ≤ maxDepth) : (v.source.draft depth).value?.isSome = true := by
  rw [ofText?_of_isText v.isText_render, Source.isSome_value?_iff (Nat.zero_le _)] at h
  exact (Source.isSome_value?_iff (Nat.le_trans (Nat.le_add_right _ _) hdepth)).mpr ⟨h.1, hdepth⟩

end Json

/-! ## Over a connection -/

namespace ExportRequest

variable {r : ExportRequest}

/-- Browser settings that survive the way to the server: they leave room for the message around them,
and their numbers are read back as numbers. -/
def Travels (r : ExportRequest) : Prop :=
  ∀ v, r.beforeEachOptions = some v → v.nesting ≤ 125 ∧ (Json.ofText? v.render).isSome = true

/-- What is written for browser settings is spelled in the message as some settings. -/
theorem exists_settings (ht : r.Travels) : ∃ settings,
    Spelling.option .any settings ((Json.ofOption id r.beforeEachOptions).source.draft 2) ∧
      ((Json.ofOption id r.beforeEachOptions).source.draft 2).value?.isSome = true := by
  cases hv : r.beforeEachOptions with
  | none => exact ⟨none, .none, rfl⟩
  | some v =>
      obtain ⟨hnesting, hread⟩ := ht v hv
      have hdepth : 2 + v.nesting ≤ Json.maxDepth := by
        show _ ≤ 127
        omega
      have hsome := Json.isSome_value?_deeper hread hdepth
      obtain ⟨v', hv'⟩ := Option.isSome_iff_exists.mp hsome
      by_cases hnull : v.source.draft 2 = .null
      · exact ⟨none, hnull ▸ .none, hsome⟩
      · exact ⟨some v', .some hnull (.mk hv'), hsome⟩

/-- The request spells itself inside its message, apart from the browser settings. -/
theorem exists_spelling (hr : r.InRange) (ht : r.Travels) : ∃ settings,
    spelling { r with beforeEachOptions := settings } ((shape.write r).source.draft 1) ∧
      ((shape.write r).source.draft 1).value?.isSome = true := by
  obtain ⟨settings, hsettings, hvalue⟩ := exists_settings ht
  have hdepth {n : Nat} (hn : n ≤ 8) : 2 + n ≤ Json.maxDepth := by
    show _ ≤ 127
    omega
  have htest : Lossless 5 (Test.shape.codec.option.write r.test) :=
    Json.lossless_ofOption fun t ht => Test.lossless_write (hr.1 t ht)
  have hsuite : Lossless 2 (Suite.shape.codec.option.write r.suite) :=
    Json.lossless_ofOption fun s hs => Suite.lossless_write (hr.2.1 s hs)
  have htests : Lossless 6 (Test.shape.codec.list.write r.tests) :=
    Json.lossless_ofList fun t ht => Test.lossless_write (hr.2.2.1 t ht)
  have hproject : Lossless 7 (Project.shape.codec.option.write r.project) :=
    Json.lossless_ofOption fun p hp => Project.lossless_write (hr.2.2.2 p hp)
  have hfields : List.Forall₂
      (FieldSpells (Json.Source.draft 2 ·.source) shape.blank r { r with beforeEachOptions := settings })
      shape.fields parts :=
    .cons (fieldSpells_field (Faithful.string.spells_source trivial (.string _) (hdepth (Nat.zero_le 8))))
      (.cons (fieldSpells_field ((Test.faithful.option fun _ => Test.shape.write_ne_null _).spells_source
        hr.1 htest (hdepth (by decide))))
      (.cons (fieldSpells_field ((Suite.faithful.option fun _ => Suite.shape.write_ne_null _).spells_source
        hr.2.1 hsuite (hdepth (by decide))))
      (.cons (fieldSpells_field (Test.faithful.list.spells_source hr.2.2.1 htests (hdepth (by decide))))
      (.cons (fieldSpells_field ((Project.faithful.option fun _ =>
        Project.shape.write_ne_null _).spells_source hr.2.2.2 hproject (hdepth (by decide))))
      (.cons (fieldSpells_field (Faithful.bool.spells_source trivial (.bool _) (hdepth (Nat.zero_le 8))))
      (.cons (fieldSpells_field (Faithful.bool.spells_source trivial (.bool _) (hdepth (Nat.zero_le 8))))
      (.cons (fieldSpells_field hsettings) .nil)))))))
  refine ⟨settings, ?_, ?_⟩
  · show spelling _ ((Json.object (Json.Record.written shape.fields r)).source.draft 1)
    rw [Json.draft_source_object (by decide)]
    exact .object (Json.Record.stands_written hfields (by decide))
  · show ((Json.object (Json.Record.written shape.fields r)).source.draft 1).value?.isSome = true
    rw [Json.draft_source_object (by decide), Json.Draft.isSome_value?_object, List.forall_mem_map]
    refine Json.Record.forall_mem_written (Q := fun v => (v.source.draft 2).value?.isSome = true) ?_
    simp only [shape, List.forall_mem_cons, List.not_mem_nil, false_imp_iff, implies_true, and_true]
    have hstring (s : String) : ((Json.string s).source.draft 2).value?.isSome = true :=
      Json.isSome_value?_source (.string s) (hdepth (Nat.zero_le 8))
    have hbool (b : Bool) : ((Json.bool b).source.draft 2).value?.isSome = true :=
      Json.isSome_value?_source (.bool b) (hdepth (Nat.zero_le 8))
    exact ⟨of_field (hstring _), of_field (Json.isSome_value?_source htest (hdepth (by decide))),
      of_field (Json.isSome_value?_source hsuite (hdepth (by decide))),
      of_field (Json.isSome_value?_source htests (hdepth (by decide))),
      of_field (Json.isSome_value?_source hproject (hdepth (by decide))), of_field (hbool _),
      of_field (hbool _), of_field hvalue⟩

/-- The fields of a message, with the options as they are read. -/
def messageFields (options : Json) : List (String × Json) :=
  [("action", .string "export"), ("entity", .string "vendor"), ("language", .string "php"),
    ("options", options)]

theorem fieldValue_word (key s : String) :
    Json.FieldValue (key, (Json.string s).source.draft 1) (key, .string s) := by
  have hlossless : Lossless 0 (.string s) := .string s
  refine ⟨rfl, ?_⟩
  rw [hlossless.draft_source (by decide)]
  rfl

theorem ofText?_exportMessage {v options : Json} (h : (v.source.draft 1).value? = some options) :
    Json.ofText? (exportMessage v).render =
      some (.object (Json.setFields [] (messageFields options))) := by
  have hoptions : Json.FieldValue ("options", v.source.draft 1) ("options", options) := ⟨rfl, h⟩
  rw [Json.ofText?_of_isText (Json.isText_render _), exportMessage,
    Json.draft_source_object (by decide), Json.Draft.value?, Option.map_eq_some_iff]
  refine ⟨_, Json.Draft.fieldValues?_eq_some_iff.mpr ⟨messageFields options, ?_, rfl⟩, rfl⟩
  simp only [List.map_cons, List.map_nil, Nat.zero_add, messageFields]
  exact .cons (fieldValue_word _ _) (.cons (fieldValue_word _ _) (.cons (fieldValue_word _ _)
    (.cons hoptions .nil)))

theorem requests_messageFields {fields : List (String × Json)} :
    Requests (.object (Json.setFields [] (messageFields (.object fields)))) (.object fields) := by
  have hget {key : String} {v : Json}
      (h : (messageFields (.object fields)).filter (·.1 = key) = [(key, v)]) :
      (Json.object (Json.setFields [] (messageFields (.object fields)))).get? key = some v := by
    refine Table.lookup_of_filter ?_
    rw [Json.filter_setFields .nil h (Nat.le_refl _), if_neg (List.cons_ne_nil _ _)]
  exact ⟨hget rfl, hget rfl, hget rfl, hget rfl, Json.noConfusion, Json.noConfusion⟩

/-- The line of a request is read as a message that asks for this export. -/
theorem exists_message (hr : r.InRange) (ht : r.Travels) : ∃ settings message options,
    Json.ofText? r.line = some message ∧ Requests message options ∧
      shape.decode options = .ok { r with beforeEachOptions := settings } := by
  obtain ⟨settings, hspelling, hsome⟩ := exists_spelling hr ht
  obtain ⟨options, hoptions⟩ := Option.isSome_iff_exists.mp hsome
  have hdecode := faithful.reads (faithful.stable hspelling hoptions)
  obtain ⟨fields, rfl⟩ : ∃ fields, options = .object fields := by
    have h : ((Json.object (Json.Record.written shape.fields r)).source.draft 1).value? = some options :=
      hoptions
    rw [Json.draft_source_object (by decide)] at h
    obtain ⟨fields, -, rfl⟩ := Option.map_eq_some_iff.mp h
    exact ⟨fields, rfl⟩
  exact ⟨settings, _, _, ofText?_exportMessage hoptions, requests_messageFields, hdecode⟩

/-- The answer to the line of a request is what comes of the request. -/
theorem answerLine_line (e : Exporter) (hr : r.InRange) (ht : r.Travels) :
    e.answerLine r.line = some (Reply.ofResult (e.exportRequest r)).write := by
  obtain ⟨settings, message, options, hread, hasks, hdecode⟩ := exists_message hr ht
  obtain ⟨c, hc, hblank⟩ := (Json.trimmed_render (exportMessage (shape.write r))).head
  rw [e.answerLine_eq fun h => ?_, line, (Json.trimmed_render _).trim, ← line, hread]
  · show some (Json.ofOption Reply.write (e.answer message)) = _
    rw [e.answer_eq_some hasks, Exporter.respond, hdecode]
    rfl
  · rw [h c (List.mem_of_mem_head? hc)] at hblank
    cases hblank

end ExportRequest

/-! ## What is delivered -/

namespace ClassFile

theorem withoutMarker_body {f : ClassFile} {rest : String} (h : f.body = marker ++ "\n" ++ rest) :
    f.withoutMarker.body = rest := by
  have hcut : Text.cut? '\n' f.body = some (marker, rest) := by
    rw [Text.cut?_eq_some_iff, h, String.toList_append, String.toList_append, List.append_assoc]
    exact ⟨by decide, rfl⟩
  rw [withoutMarker, dropFirstLine, hcut]

/-- Every class file begins with the line that names the generator. -/
theorem body_eq {e : Exporter} {name : String} {members pool : List Test} {options : RenderOptions}
    {f : ClassFile} (h : e.exportClass name members pool options = .ok f) :
    f.body = marker ++ "\n" ++ f.withoutMarker.body := by
  have hmarker : (Line.text ⟨0, marker⟩) = marker ++ "\n" := by decide
  cases hc : e.assemble name members pool options with
  | error fault =>
      rw [Exporter.exportClass, hc] at h
      cases h
  | ok c =>
      rw [Exporter.exportClass, hc] at h
      have hbody : ∃ rest, f.body = marker ++ "\n" ++ rest := by
        obtain rfl := Except.ok.inj h
        show ∃ rest, Line.textOf (e.layout name c) = marker ++ "\n" ++ rest
        rw [Exporter.layout, Line.textOf]
        simp only [List.cons_append, List.nil_append, List.map_cons, String.join_cons, hmarker]
        exact ⟨_, rfl⟩
      obtain ⟨rest, hrest⟩ := hbody
      rw [withoutMarker_body hrest]
      exact hrest

end ClassFile

namespace Exporter

variable (e : Exporter)

theorem exists_exportClass {r : ExportRequest} {f : ClassFile} (h : e.exportRequest r = .ok f) :
    ∃ name members pool, e.exportClass name members pool r.options = .ok f := by
  unfold exportRequest at h
  split at h
  · obtain ⟨members, -, h⟩ := bind_eq_ok.mp h
    exact ⟨_, _, _, h⟩
  · exact ⟨_, _, _, h⟩
  · cases h

/-- What a client receives for a request: the exported file without its first line, or the error. -/
inductive Delivers (r : ExportRequest) : Reply → Prop
  | exported {filename body : String}
    (h : e.exportRequest r = .ok ⟨filename, ClassFile.marker ++ "\n" ++ body⟩) :
    Delivers r (.exported body filename)
  | failed {fault : ExportError} (h : e.exportRequest r = .error fault) :
    Delivers r (.failed fault.message "fatal")

theorem delivers_ofResult (r : ExportRequest) : e.Delivers r (Reply.ofResult (e.exportRequest r)) := by
  cases h : e.exportRequest r with
  | error fault => exact .failed h
  | ok f =>
      obtain ⟨name, members, pool, hclass⟩ := e.exists_exportClass h
      refine .exported ?_
      rw [h, ← ClassFile.body_eq hclass]
      rfl

/-- Over a connection a request is always answered, and with what comes of it. -/
theorem delivers_over_connection {r : ExportRequest} (hr : r.InRange) (ht : r.Travels) :
    ∃ reply, Reply.ofPeer (Wire.receive (.sends (e.serve (r.line ++ "\n")))) = .ok (some reply) ∧
      e.Delivers r reply := by
  have hline : '\n' ∉ r.line.toList := Json.lineFeed_notMem_render _
  have hanswer := ExportRequest.answerLine_line e hr ht
  obtain ⟨hlossless, hordered⟩ := e.readable_of_answerLine hanswer
  refine ⟨_, ?_, e.delivers_ofResult r⟩
  rw [e.serve_line hline hanswer, Wire.receive_render (hlossless.mono (by decide)) hordered,
    Reply.ofPeer_write]

/-! ## From a project -/

/-- The request names the tests of the project, or none and the project itself. Where the project
has none either, no other project may lend its tests. -/
inductive SharesPool (r : ExportRequest) (p : Project) : Prop
  | tests (h : r.tests = p.tests)
    (hempty : p.tests = [] → ∀ q, r.project = some q → q.tests = []) : SharesPool r p
  | project (h : r.tests = []) (hp : r.project = some p) : SharesPool r p

theorem SharesPool.pool_eq {r : ExportRequest} {p : Project} (h : SharesPool r p) :
    r.pool = p.tests := by
  cases h with
  | tests h hempty =>
      unfold ExportRequest.pool
      split
      · next q hq =>
          split_ifs with hnone
          · have hp : p.tests = [] := h ▸ List.isEmpty_iff.mp hnone
            rw [hempty hp q hq, hp]
          · exact h
      · exact h
  | project h hp => simp [ExportRequest.pool, h, hp]

variable {p : Project} {options : RenderOptions} {r : ExportRequest}

theorem convert_test (hoptions : r.options = options) (hpool : SharesPool r p) {key : String} {t : Test}
    (hfind : p.findTest? key = some t) (hsuite : r.suite = none) (htest : r.test = some t) :
    e.convert p options (.test key) = (e.exportRequest r).map fun f => [f.withoutMarker] := by
  have hexport : e.exportRequest r = e.exportTest t p.tests options := by
    rw [exportRequest, hsuite, htest, hpool.pool_eq, hoptions]
  simp only [convert, hfind, exportAll, hexport, List.mapM_cons, List.mapM_nil]
  cases e.exportTest t p.tests options with
  | error fault => rfl
  | ok f => rfl

theorem convert_suite (hoptions : r.options = options) (hpool : SharesPool r p) {key : String}
    {s : Suite} (hfind : p.findSuite? key = some s) (hsuite : r.suite = some s) :
    e.convert p options (.suite key) = (e.exportRequest r).map fun f => [f.withoutMarker] := by
  rw [convert, hfind, exportRequest, hsuite, hpool.pool_eq, hoptions]

/-! ## All routes -/

/-- A request delivers over a connection what it gives when it is carried out directly, and so does
the conversion of a project for the request that names the same tests. -/
theorem routes_agree :
    (∀ r : ExportRequest, r.InRange → r.Travels → ∃ reply,
      Reply.ofPeer (Wire.receive (.sends (e.serve (r.line ++ "\n")))) = .ok (some reply) ∧
        e.Delivers r reply) ∧
    ∀ (p : Project) (options : RenderOptions) (r : ExportRequest), r.options = options →
      SharesPool r p →
        (∀ key t, p.findTest? key = some t → r.suite = none → r.test = some t →
          e.convert p options (.test key) = (e.exportRequest r).map fun f => [f.withoutMarker]) ∧
        ∀ key s, p.findSuite? key = some s → r.suite = some s →
          e.convert p options (.suite key) = (e.exportRequest r).map fun f => [f.withoutMarker] :=
  ⟨fun _ hr ht => e.delivers_over_connection hr ht, fun _ _ _ hoptions hpool =>
    ⟨fun _ _ hfind hsuite htest => e.convert_test hoptions hpool hfind hsuite htest,
      fun _ _ hfind hsuite => e.convert_suite hoptions hpool hfind hsuite⟩⟩

/-- A request is delivered with browser settings that it has no use for. -/
theorem delivers_with_settings :
    let r : ExportRequest := ⟨"", some ⟨"1", "login", []⟩, none, [], none, false, false,
      some (.object [("width", .ofNat 800)])⟩
    r.InRange ∧ r.Travels ∧ ∃ reply,
      Reply.ofPeer (Wire.receive (.sends (default.serve (r.line ++ "\n")))) = .ok (some reply) ∧
        default.Delivers r reply := by
  intro r
  have hr : r.InRange := by
    simp [r, ExportRequest.InRange, Test.InRange]
  have ht : r.Travels := by
    intro v hv
    obtain rfl := Option.some.inj hv
    exact ⟨by decide, by decide +kernel⟩
  exact ⟨hr, ht, (routes_agree default).1 r hr ht⟩

/-- Where neither a project nor the request has tests, another project in the request lends its own. -/
theorem other_project_lends_tests : ¬∀ (p : Project) (options : RenderOptions) (r : ExportRequest)
    (key : String) (s : Suite), r.options = options →
      (r.tests = p.tests ∨ r.tests = [] ∧ r.project = some p) →
      p.findSuite? key = some s → r.suite = some s →
      default.convert p options (.suite key) =
        (default.exportRequest r).map fun f => [f.withoutMarker] := by
  intro h
  let s : Suite := ⟨"s", "all", false, false, none, ["1"]⟩
  let q : Project := { Project.blank with tests := [⟨"1", "login", []⟩] }
  let r : ExportRequest := ⟨"", none, some s, [], some q, false, false, none⟩
  have hsame := h { Project.blank with suites := [s] } ⟨"", false, false⟩ r "all" s rfl (.inl rfl)
    (by decide) rfl
  have hlent : (default.exportRequest r).toOption.isSome = true := by decide +kernel
  cases hr : default.exportRequest r with
  | error fault => simp [hr, Except.toOption] at hlent
  | ok f =>
      rw [hr] at hsame
      cases hsame

end Exporter

end CestWriter
