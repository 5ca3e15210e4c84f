import CestWriter.Files.Path
import CestWriter.Json.Record
import CestWriter.Json.Render

/-! Settings that are kept between runs. -/

namespace CestWriter

/-- The base address used when nothing else names one, the socket of the recorder, and the
milliseconds between two looks at the recorder. -/
structure Settings where
  defaultBaseUrl : Option String
  hostSocket : Option String
  healthInterval : Option Nat
  deriving DecidableEq

namespace Settings

open Json (Codec Record)

def blank : Settings :=
  ⟨none, none, none⟩

def shape : Record Settings where
  name := "ExportConfig"
  blank := .blank
  fields := [
    Codec.string.optional "default_base_url" (·.defaultBaseUrl) fun x v => { x with defaultBaseUrl := v },
    Codec.string.optional "host_socket" (·.hostSocket) fun x v => { x with hostSocket := v },
    Codec.unsigned64.optional "health_interval_ms" (·.healthInterval) fun x v => { x with healthInterval := v }]

/-- Text that cannot be read counts as no settings at all. -/
def ofText (text : Option String) : Settings :=
  (text.bind shape.ofText?).getD .blank

/-- The text under which settings are saved; what is not set is left out. -/
def text (s : Settings) : String :=
  (shape.write s).renderPretty 0

/-- The directory of the program in a home directory, where settings are kept and servers listen. -/
def directory (home : String) : String :=
  Path.join home ".codecept-export"

/-- The file that settings are saved in. -/
def path (home : String) : String :=
  Path.join (directory home) "config.json"

def defaultInterval : Nat := 1000

/-- Milliseconds between two looks at the recorder. Zero counts as not set. -/
def interval (s : Settings) : Nat :=
  match s.healthInterval with
  | some ms => if 0 < ms then ms else defaultInterval
  | none => defaultInterval

end Settings

end CestWriter
