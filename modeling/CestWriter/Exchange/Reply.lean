import CestWriter.Exchange.Request

/-! Answers to export requests, and which messages are such requests. -/

namespace CestWriter

inductive Reply
  | exported (body filename : String)
  | failed (error status : String)
  deriving DecidableEq

namespace Reply

open Json (Codec Record Reader)

def fatal (error : String) : Reply :=
  .failed error "fatal"

/-- The file without its first line, which names the generator. -/
def ofFile (f : ClassFile) : Reply :=
  .exported f.withoutMarker.body f.withoutMarker.filename

def ofResult : Except ExportError ClassFile → Reply
  | .ok f => ofFile f
  | .error e => fatal e.message

/-- The fields of an answer, by the name of the first and the second. -/
def pairShape (first second : String) : Record (String × String) where
  name := "PluginResponse"
  blank := ("", "")
  fields := [
    Codec.string.required first (·.1) fun x v => (v, x.2),
    Codec.string.required second (·.2) fun x v => (x.1, v)]

def exportedShape : Record (String × String) :=
  pairShape "body" "filename"

def failedShape : Record (String × String) :=
  pairShape "error" "status"

/-- An answer is recognised by the fields it has; those of an export are tried first. -/
def read : Reader Reply
  | .object fields =>
    let d := Json.Draft.object fields
    if d.value?.isNone then .error (.noVariant "PluginResponse")
    else match exportedShape.read d, failedShape.read d with
      | .ok (body, filename), _ => .ok (.exported body filename)
      | .error _, .ok (error, status) => .ok (.failed error status)
      | .error _, .error _ => .error (.noVariant "PluginResponse")
  | _ => .error (.noVariant "PluginResponse")

/-- Reads an answer from text. The shape of the first value is judged before what follows it, and
text that is not JSON is refused without details. -/
def ofText (s : String) : Except (Option Json.Misfit) Reply :=
  match Json.Draft.take? s with
  | none => .error none
  | some (d, rest) =>
    if d.value?.isNone then .error none
    else match read d with
      | .error m => .error (some m)
      | .ok r => if Json.skipBlank rest = [] then .ok r else .error none

def write : Reply → Json
  | exported body filename => exportedShape.write (body, filename)
  | failed error status => failedShape.write (error, status)

def codec : Codec Reply :=
  ⟨read, write⟩

end Reply

/-- An export request for this language: three fixed words, and options that are not negative. -/
def isExportRequest (message : Json) : Bool :=
  let holds (key word : String) : Bool := (message.get? key).bind Json.string? == some word
  holds "action" "export" && holds "entity" "vendor" && holds "language" "php" &&
    ((message.get? "options").map fun o => !o.isNegative).getD false

/-- The message that asks for an export. -/
def exportMessage (options : Json) : Json :=
  .object [("action", .string "export"), ("entity", .string "vendor"), ("language", .string "php"),
    ("options", options)]

/-- The answer to a message; none if it is not an export request. -/
def Exporter.answer (e : Exporter) (message : Json) : Option Reply :=
  if isExportRequest message then
    some (match ExportRequest.shape.decode ((message.get? "options").getD .null) with
      | .ok r => .ofResult (e.exportRequest r)
      | .error m => .fatal (ExportError.misfit m).message)
  else none

end CestWriter
