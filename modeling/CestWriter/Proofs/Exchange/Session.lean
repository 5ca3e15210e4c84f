import CestWriter.Proofs.Exchange.Lines
import Mathlib.Logic.Relation

/-! # Sessions

A client sends messages over one connection and waits for the reply to each before it sends the next.
Whatever the messages are, replies and messages stay in step. -/

namespace CestWriter

open Json (IsText)
open Relation (ReflTransGen)

/-- A connection: the messages to be sent yet, whether the client waits for a reply, the characters
on their way to the server and back, and what the client received. -/
structure Session where
  unsent : List Json
  waiting : Bool
  upstream : List Char
  downstream : List Char
  received : List (Except Wire.Failure Json)

namespace Session

def start (messages : List Json) : Session :=
  ⟨messages, false, [], [], []⟩

/-- What either side does. The server takes a line as soon as it is complete, and so does the client
that waits for one. -/
inductive Step (e : Exporter) : Session → Session → Prop
  | send {message : Json} {unsent : List Json} {up down : List Char}
    {got : List (Except Wire.Failure Json)} : Step e ⟨message :: unsent, false, up, down, got⟩
      ⟨unsent, true, up ++ (message.render ++ "\n").toList, down, got⟩
  | serve {line : String} {unsent : List Json} {waiting : Bool} {up down : List Char}
    {got : List (Except Wire.Failure Json)} (h : '\n' ∉ line.toList) :
    Step e ⟨unsent, waiting, line.toList ++ '\n' :: up, down, got⟩
      ⟨unsent, waiting, up, down ++ (e.serve (line ++ "\n")).toList, got⟩
  | receive {line : String} {unsent : List Json} {up down : List Char}
    {got : List (Except Wire.Failure Json)} (h : '\n' ∉ line.toList) :
    Step e ⟨unsent, true, up, line.toList ++ '\n' :: down, got⟩
      ⟨unsent, false, up, down, got ++ [Wire.receive (.sends (line ++ "\n"))]⟩

/-- The reply to each message. -/
abbrev Answered (e : Exporter) : List Json → List Json → Prop :=
  List.Forall₂ fun message reply => e.answerLine message.render = some reply

/-- The state of a session in which `replies` came back and `rest` is the answer to what is left: the
line of at most one message or of its reply is on its way. -/
inductive InStep (e : Exporter) (replies rest : List Json) : Session → Prop
  | idle {unsent : List Json} (h : Answered e unsent rest) :
    InStep e replies rest ⟨unsent, false, [], [], replies.map .ok⟩
  | asked {message reply : Json} {unsent after : List Json} (hrest : rest = reply :: after)
    (hreply : e.answerLine message.render = some reply) (h : Answered e unsent after) :
    InStep e replies rest ⟨unsent, true, (message.render ++ "\n").toList, [], replies.map .ok⟩
  | replied {message reply : Json} {unsent after : List Json} (hrest : rest = reply :: after)
    (hreply : e.answerLine message.render = some reply) (h : Answered e unsent after) :
    InStep e replies rest ⟨unsent, true, [], (reply.render ++ "\n").toList, replies.map .ok⟩

/-- The steps that are left. -/
def remaining (s : Session) : Nat :=
  3 * s.unsent.length + (if s.upstream = [] then 0 else 2) + (if s.downstream = [] then 0 else 1)

variable {e : Exporter} {replies rest : List Json} {s s' : Session}

/-- A text with one line feed at its end has one line. -/
theorem line_eq {text line : String} {tail : List Char} (htext : '\n' ∉ text.toList)
    (h : (text ++ "\n").toList = line.toList ++ '\n' :: tail) : line = text ∧ tail = [] := by
  rw [String.toList_append] at h
  have hparts := (List.append_cons_inj_of_notMem htext List.not_mem_nil).mp h
  exact ⟨String.toList_injective hparts.1.symm, hparts.2.2.symm⟩

theorem lineFeed_ne_nil (text : String) : (text ++ "\n").toList ≠ [] := by
  simp [String.toList_append]

/-- A step keeps the session in step and brings it nearer to its end. -/
theorem InStep.step (h : InStep e replies rest s) (hstep : Step e s s') :
    (∃ replies' rest', replies' ++ rest' = replies ++ rest ∧ InStep e replies' rest' s') ∧
      s'.remaining < s.remaining := by
  cases h with
  | @idle unsent h =>
      generalize hup : ([] : List Char) = up at hstep
      cases hstep with
      | send =>
          obtain ⟨reply, after, hreply, hafter, rfl⟩ := List.forall₂_cons_left_iff.mp h
          subst hup
          refine ⟨⟨replies, reply :: after, rfl, .asked rfl hreply hafter⟩, ?_⟩
          simp only [remaining, List.length_cons, List.nil_append, if_neg (lineFeed_ne_nil _)]
          simp
          omega
      | serve => simp at hup
  | @asked message reply unsent after hrest hreply h =>
      generalize hup : (message.render ++ "\n").toList = up at hstep
      generalize hdown : ([] : List Char) = down at hstep
      cases hstep with
      | serve =>
          obtain ⟨rfl, rfl⟩ := line_eq message.lineFeed_notMem_render hup
          subst hdown
          rw [e.serve_line message.lineFeed_notMem_render hreply]
          refine ⟨⟨replies, rest, rfl, .replied hrest hreply h⟩, ?_⟩
          simp [remaining]
      | receive => simp at hdown
  | @replied message reply unsent after hrest hreply h =>
      generalize hup : ([] : List Char) = up at hstep
      generalize hdown : (reply.render ++ "\n").toList = down at hstep
      cases hstep with
      | serve => simp at hup
      | receive =>
          obtain ⟨rfl, rfl⟩ := line_eq reply.lineFeed_notMem_render hdown
          obtain ⟨hlossless, hordered⟩ := e.readable_of_answerLine hreply
          subst hup hrest
          rw [Wire.receive_render (hlossless.mono (by decide)) hordered]
          refine ⟨⟨replies ++ [reply], after, by simp, ?_⟩, ?_⟩
          · have hgot : replies.map Except.ok ++ [Except.ok reply] =
                ((replies ++ [reply]).map .ok : List (Except Wire.Failure Json)) := by simp
            rw [hgot]
            exact .idle h
          · simp [remaining]

/-- Whatever is left to be done can be done. -/
theorem InStep.exists_step (h : InStep e replies rest s) (hrest : rest ≠ []) : ∃ s', Step e s s' := by
  cases h with
  | idle h =>
      cases h with
      | nil => exact absurd rfl hrest
      | cons hreply h => exact ⟨_, .send⟩
  | @asked message reply unsent after _ hreply h =>
      rw [String.toList_append]
      exact ⟨_, .serve message.lineFeed_notMem_render⟩
  | @replied message reply unsent after _ hreply h =>
      rw [String.toList_append]
      exact ⟨_, .receive reply.lineFeed_notMem_render⟩

theorem InStep.received (h : InStep e replies rest s) : s.received = replies.map .ok := by
  cases h <;> rfl

theorem exists_answered (e : Exporter) (messages : List Json) : ∃ replies, Answered e messages replies := by
  induction messages with
  | nil => exact ⟨[], .nil⟩
  | cons message messages ih =>
      obtain ⟨reply, hreply⟩ := e.exists_answerLine_render message
      obtain ⟨replies, h⟩ := ih
      exact ⟨reply :: replies, .cons hreply h⟩

/-- Every state that a session comes to is in step. -/
theorem inStep_of_run {messages all : List Json} (hall : Answered e messages all)
    (hrun : ReflTransGen (Step e) (start messages) s) :
    ∃ replies rest, replies ++ rest = all ∧ InStep e replies rest s := by
  induction hrun with
  | refl => exact ⟨[], all, rfl, .idle hall⟩
  | tail _ hstep ih =>
      obtain ⟨replies, rest, rfl, h⟩ := ih
      obtain ⟨replies', rest', he, h'⟩ := (h.step hstep).1
      exact ⟨replies', rest', he, h'⟩

/-- A session does not go on for ever. -/
theorem not_forever {messages : List Json} (run : Nat → Session) (hstart : run 0 = start messages) :
    ¬∀ n, Step e (run n) (run (n + 1)) := by
  intro hrun
  obtain ⟨all, hall⟩ := exists_answered e messages
  have hreach (n : Nat) : ReflTransGen (Step e) (start messages) (run n) := by
    induction n with
    | zero => exact hstart ▸ .refl
    | succ n ih => exact ih.tail (hrun n)
  have hless (n : Nat) : (run (n + 1)).remaining < (run n).remaining := by
    obtain ⟨replies, rest, -, h⟩ := inStep_of_run hall (hreach n)
    exact (h.step (hrun n)).2
  have hbound (n : Nat) : (run n).remaining + n ≤ (run 0).remaining := by
    induction n with
    | zero => exact Nat.le_refl _
    | succ n ih =>
        have h := hless n
        omega
  have h := hbound ((run 0).remaining + 1)
  omega

/-- However a session goes on, the client receives the replies to its messages in order, and all of
them by the time that nothing more can happen. -/
theorem replies_in_step {messages all : List Json} (hall : Answered e messages all)
    (hrun : ReflTransGen (Step e) (start messages) s) :
    s.received <+: all.map .ok ∧ ((∀ s', ¬Step e s s') → s.received = all.map .ok) := by
  obtain ⟨replies, rest, rfl, h⟩ := inStep_of_run hall hrun
  rw [h.received, List.map_append]
  refine ⟨List.prefix_append _ _, fun hstuck => ?_⟩
  have hrest : rest = [] := by
    by_contra hne
    obtain ⟨s', hstep⟩ := h.exists_step hne
    exact hstuck s' hstep
  rw [hrest, List.map_nil, List.append_nil]

end Session

/-! ## One reply to each line -/

/-- Every line has one answer, which depends on nothing else, and none if it is blank; answers are
single lines, sent in the order of the lines. So replies and messages stay in step. -/
theorem Exporter.one_reply_per_line (e : Exporter) :
    (∀ line, e.Answers line (e.answerLine line)) ∧
    (∀ line reply, e.answerLine line = some reply → '\n' ∉ reply.render.toList) ∧
    (∀ text, e.serve text = String.join ((Text.split '\n' text).filterMap fun line =>
      (e.answerLine line).map fun reply => reply.render ++ "\n")) ∧
    ∀ messages, ∃ replies, Session.Answered e messages replies ∧
      (∀ s, ReflTransGen (Session.Step e) (.start messages) s →
        s.received <+: replies.map .ok ∧
          ((∀ s', ¬Session.Step e s s') → s.received = replies.map .ok)) ∧
      ∀ run : Nat → Session, run 0 = .start messages → ¬∀ n, Session.Step e (run n) (run (n + 1)) := by
  refine ⟨e.answers_answerLine, fun _ reply _ => reply.lineFeed_notMem_render, e.serve_eq,
    fun messages => ?_⟩
  obtain ⟨replies, h⟩ := Session.exists_answered e messages
  exact ⟨replies, h, fun s hrun => Session.replies_in_step h hrun, Session.not_forever⟩

/-- A number beyond the doubles is JSON and asks for nothing, but it is refused instead of ignored. -/
theorem Exporter.number_beyond_doubles :
    IsText "1e400" (.numeral ⟨false, ['1'], none, some 400⟩) ∧
      Exporter.default.answerLine "1e400" = some (Reply.fatal "Invalid JSON: <json>").write ∧
      Exporter.default.answerLine "1e400" ≠ some .null := by
  have htext : IsText "1e400" (.numeral ⟨false, ['1'], none, some 400⟩) := by
    have hdigits : Json.Numeral.IsDigits ['4', '0', '0'] := ⟨by simp, by simp⟩
    have hexponent : Json.Numeral.SpellsExponent (some 400) ['e', '4', '0', '0'] :=
      .bare (.inl rfl) hdigits
    have hspells : Json.Numeral.Parts.Spells ⟨false, ['1'], none, some 400⟩ ['1', 'e', '4', '0', '0'] :=
      Json.Numeral.Parts.spells .plus (Number.isNatural_toDigits 1) .absent hexponent
    exact ⟨[], .numeral [] hspells, .nil []⟩
  have hnumber : Json.Numeral.Parts.number? ⟨false, ['1'], none, some 400⟩ = none := by
    obtain ⟨x, hx, hzero⟩ : ∃ x, Number.Double.nearest? false 1 1 = some x ∧ x.isZero = false :=
      ⟨_, rfl, by decide +kernel⟩
    show (Number.Double.nearest? false 1 1).bind (fun x => (Json.Numeral.scale? x 400).map Json.Number.real) = none
    rw [hx, Option.bind_some, Json.Numeral.scale?, if_neg (by decide), hzero,
      if_neg Bool.false_ne_true, dif_pos (by decide)]
    rfl
  have hread : Json.ofText? "1e400" = none := by
    rw [Json.ofText?_of_isText htext, Json.Source.draft, hnumber]
    rfl
  have hanswer : Exporter.default.answerLine "1e400" = some (Reply.fatal "Invalid JSON: <json>").write := by
    have hvisible : ¬∀ c ∈ "1e400".toList, Text.isBlank c = true := fun hblank =>
      absurd (hblank '1' (by decide)) (by decide)
    rw [answerLine_eq _ hvisible, show Text.trim "1e400" = "1e400" by decide, hread]
    rfl
  refine ⟨htext, hanswer, ?_⟩
  rw [hanswer]
  exact fun h => Json.noConfusion (Option.some.inj h)

end CestWriter
