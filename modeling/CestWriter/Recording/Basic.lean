import CestWriter.Text.Cut

/-! Recorded browser tests: steps, tests, suites of tests, and the project that holds them. -/

namespace CestWriter

/-- One recorded step. `target` and `value` are its arguments; `targets` keeps other locators of
the same element. A step may open a window, whose handle is then stored under a name. -/
structure Step where
  id : String
  comment : String
  command : String
  target : String
  targets : List (List String)
  value : String
  opensWindow : Bool
  windowHandleName : String
  windowTimeout : Option Nat
  deriving DecidableEq

structure Test where
  id : String
  name : String
  commands : List Step
  deriving DecidableEq

/-- A named group of tests, given by their keys in order. -/
structure Suite where
  id : String
  name : String
  persistSession : Bool
  parallel : Bool
  timeout : Option Nat
  tests : List String
  deriving DecidableEq

structure Project where
  id : String
  version : String
  name : String
  url : String
  tests : List Test
  suites : List Suite
  urls : List String
  deriving DecidableEq

def Step.blank : Step :=
  ⟨"", "", "", "", [], "", false, "", none⟩

def Test.blank : Test :=
  ⟨"", "", []⟩

def Suite.blank : Suite :=
  ⟨"", "", false, false, none, []⟩

def Project.blank : Project :=
  ⟨"", "", "", "", [], [], []⟩

/-- Steps that were switched off have two slashes before the command name. -/
def Step.isDisabled (s : Step) : Bool :=
  Text.startsWith "//" s.command

/-- How long to wait for a new window unless the step says otherwise, in milliseconds. -/
def defaultWindowTimeout : Nat := 2000

def Step.windowWait (s : Step) : Nat :=
  s.windowTimeout.getD defaultWindowTimeout

/-- The position of the first test with this id, or else of the first with this name. -/
def findTestIndex? (tests : List Test) (key : String) : Option Nat :=
  match tests.findIdx? (·.id == key) with
  | some i => some i
  | none => tests.findIdx? (·.name == key)

/-- The first test with this id, or else the first with this name. -/
def findTest? (tests : List Test) (key : String) : Option Test :=
  (findTestIndex? tests key).bind (tests[·]?)

def Project.findTest? (p : Project) (key : String) : Option Test :=
  CestWriter.findTest? p.tests key

/-- The first suite with this name or id. -/
def Project.findSuite? (p : Project) (key : String) : Option Suite :=
  p.suites.find? fun s => s.name == key || s.id == key

end CestWriter
