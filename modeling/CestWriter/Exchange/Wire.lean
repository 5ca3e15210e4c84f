import CestWriter.Exchange.Reply
import CestWriter.Files.Refusal
import CestWriter.Settings
import CestWriter.Text.Blank

/-! Messages travel as lines of JSON. The serving side answers each line with one line; the asking
side sends one line and reads one. -/

namespace CestWriter

namespace Wire

/-- The lines of a text: each ends at a line feed, the last one perhaps at the end of the text. -/
def splitLines (run : List Char) : List Char → List String
  | [] => if run = [] then [] else [String.ofList run.reverse]
  | c :: cs =>
    if c = '\n' then String.ofList run.reverse :: splitLines [] cs else splitLines (c :: run) cs

def lines (text : String) : List String :=
  splitLines [] text.toList

/-- Why no reply was received. -/
inductive Failure
  /-- Nobody listens. -/
  | unreachable (reason : Refusal)
  /-- The reply is not JSON; the details are not kept. -/
  | badText
  /-- The reply is JSON of the wrong shape. -/
  | misfit (m : Json.Misfit)
  | closed

def Failure.message : Failure → String
  | unreachable reason => "IO error: " ++ reason.text
  | badText => "JSON error: <json>"
  | misfit m => "JSON error: " ++ m.message
  | closed => "Connection closed before a reply was received"

/-- What the other side does on one connection. -/
inductive Peer
  | absent
  /-- Sends a text and closes. -/
  | sends (text : String)
  deriving DecidableEq

/-- Reads one line of a reply, which must be JSON between blanks. -/
def receive : Peer → Except Failure Json
  | .absent => .error (.unreachable .noSuchFile)
  | .sends text =>
    match lines text with
    | [] => .error .closed
    | line :: _ =>
      match Json.ofText? (Text.trim line) with
      | some reply => .ok reply
      | none => .error .badText

/-- The socket of a session's server, in the home directory. -/
def socket (home session : String) : String :=
  Path.join (Settings.directory home) ("codecept_export_" ++ session ++ ".sock")

/-- The longest path of a socket in UTF-8 bytes. -/
def longestSocket : Nat := 107

/-- Asks the server that listens at a socket, which does with the line what `server` tells. -/
def ask (socket : String) (server : Peer) : Except Failure Json :=
  if longestSocket < socket.utf8ByteSize then .error (.unreachable .socketNameTooLong)
  else receive server

end Wire

namespace Exporter

/-- The answer to a line; none for a blank one. -/
def answerLine (e : Exporter) (line : String) : Option Json :=
  let text := Text.trim line
  if text.isEmpty then none
  else some (match Json.ofText? text with
    | none => (Reply.fatal ExportError.badText.message).write
    | some message => Json.ofOption Reply.write (e.answer message))

/-- All that is sent back on a connection. -/
def serve (e : Exporter) (received : String) : String :=
  String.join ((Wire.lines received).filterMap fun line =>
    (e.answerLine line).map fun reply => reply.render ++ "\n")

/-- What became of one line. -/
inductive Served
  | blank
  | replied (reply : Json)
  | closed

/-- Serves lines one after another; a line that is not UTF-8 text ends the connection. -/
def serveLines (e : Exporter) : List (Option String) → List Served
  | [] => []
  | none :: rest => .closed :: rest.map fun _ => .closed
  | some line :: rest =>
    (match e.answerLine line with
      | some reply => .replied reply
      | none => .blank) :: serveLines e rest

end Exporter

/-- The reply to an export request: none if the other side did not take it for one. -/
def Reply.ofPeer (answer : Except Wire.Failure Json) : Except Wire.Failure (Option Reply) := do
  (Reply.codec.option.read (← answer).draft).mapError .misfit

/-- The line that asks for an export. -/
def ExportRequest.line (r : ExportRequest) : String :=
  (exportMessage (ExportRequest.shape.write r)).render

end CestWriter
