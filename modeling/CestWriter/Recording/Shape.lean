import CestWriter.Json.Record
import CestWriter.Recording.Argument
import CestWriter.Recording.Basic

/-! JSON shapes of recorded tests. Every field of a step, a test, a suite or a project may be
missing. -/

namespace CestWriter

open Json (Codec Record)

def Step.shape : Record Step where
  name := "Command"
  blank := .blank
  fields := [
    Codec.string.field "id" (·.id) fun x v => { x with id := v },
    Codec.string.field "comment" (·.comment) fun x v => { x with comment := v },
    Codec.string.field "command" (·.command) fun x v => { x with command := v },
    Codec.string.field "target" (·.target) fun x v => { x with target := v },
    Codec.strings.list.field "targets" (·.targets) fun x v => { x with targets := v },
    Codec.string.field "value" (·.value) fun x v => { x with value := v },
    Codec.bool.field "opensWindow" (·.opensWindow) fun x v => { x with opensWindow := v },
    Codec.string.field "windowHandleName" (·.windowHandleName) fun x v => { x with windowHandleName := v },
    Codec.unsigned64.option.field "windowTimeout" (·.windowTimeout) fun x v => { x with windowTimeout := v }]

def Test.shape : Record Test where
  name := "Test"
  blank := .blank
  fields := [
    Codec.string.field "id" (·.id) fun x v => { x with id := v },
    Codec.string.field "name" (·.name) fun x v => { x with name := v },
    Step.shape.codec.list.field "commands" (·.commands) fun x v => { x with commands := v }]

def Suite.shape : Record Suite where
  name := "Suite"
  blank := .blank
  fields := [
    Codec.string.field "id" (·.id) fun x v => { x with id := v },
    Codec.string.field "name" (·.name) fun x v => { x with name := v },
    Codec.bool.field "persistSession" (·.persistSession) fun x v => { x with persistSession := v },
    Codec.bool.field "parallel" (·.parallel) fun x v => { x with parallel := v },
    Codec.unsigned64.option.field "timeout" (·.timeout) fun x v => { x with timeout := v },
    Codec.strings.field "tests" (·.tests) fun x v => { x with tests := v }]

def Project.shape : Record Project where
  name := "Project"
  blank := .blank
  fields := [
    Codec.string.field "id" (·.id) fun x v => { x with id := v },
    Codec.string.field "version" (·.version) fun x v => { x with version := v },
    Codec.string.field "name" (·.name) fun x v => { x with name := v },
    Codec.string.field "url" (·.url) fun x v => { x with url := v },
    Test.shape.codec.list.field "tests" (·.tests) fun x v => { x with tests := v },
    Suite.shape.codec.list.field "suites" (·.suites) fun x v => { x with suites := v },
    Codec.strings.field "urls" (·.urls) fun x v => { x with urls := v }]

/-- Both fields of a script are required. -/
def Script.shape : Record Script where
  name := "Script"
  blank := ⟨"", []⟩
  fields := [
    Codec.string.required "script" (·.script) fun x v => { x with script := v },
    Codec.strings.required "argv" (·.argv) fun x v => { x with argv := v }]

end CestWriter
