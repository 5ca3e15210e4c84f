import CestWriter.ClassFile.Basic

/-! What the recorder is told about this plugin, and the requests made to it. -/

namespace CestWriter

open Json (Codec Record)

/-- What a plugin exports: for each entry, languages and their display names. -/
structure ExportTargets where
  vendor : List (List (String × String))

def ExportTargets.shape : Record ExportTargets where
  name := "ExportTargets"
  blank := ⟨[]⟩
  fields := [Codec.string.map.list.required "vendor" (·.vendor) fun x v => { x with vendor := v }]

structure Manifest where
  name : String
  version : String
  exports : ExportTargets

def Manifest.shape : Record Manifest where
  name := "PluginManifest"
  blank := ⟨"", "", ⟨[]⟩⟩
  fields := [
    Codec.string.required "name" (·.name) fun x v => { x with name := v },
    Codec.string.required "version" (·.version) fun x v => { x with version := v },
    ExportTargets.shape.codec.required "exports" (·.exports) fun x v => { x with exports := v }]

/-- This plugin. -/
def Manifest.own : Manifest :=
  ⟨"PHP Codeception Code Export", ClassFile.version, ⟨[[("php", "PHP Codeception")]]⟩⟩

structure HostRequest where
  uri : String
  verb : String
  payload : Option Manifest

def HostRequest.shape : Record HostRequest where
  name := "HostRequest"
  blank := ⟨"", "", none⟩
  fields := [
    Codec.string.required "uri" (·.uri) fun x v => { x with uri := v },
    Codec.string.required "verb" (·.verb) fun x v => { x with verb := v },
    Manifest.shape.codec.optional "payload" (·.payload) fun x v => { x with payload := v }]

namespace HostRequest

def health : HostRequest :=
  ⟨"/health", "get", none⟩

def register (m : Manifest) : HostRequest :=
  ⟨"/register", "post", some m⟩

end HostRequest

end CestWriter
