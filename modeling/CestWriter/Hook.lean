import CestWriter.Layout.Fragment

/-! Hooks are places of a class file that hold fixed lines and take further ones. -/

namespace CestWriter

inductive Hook.Kind
  | afterAll
  | afterEach
  | beforeAll
  | beforeEach
  | declareDependencies
  | declareMethods
  | declareVariables
  | inEachBegin
  | inEachEnd
  deriving DecidableEq

namespace Hook.Kind

def all : List Kind :=
  [afterAll, afterEach, beforeAll, beforeEach, declareDependencies, declareMethods, declareVariables,
    inEachBegin, inEachEnd]

def name : Kind → String
  | afterAll => "afterAll"
  | afterEach => "afterEach"
  | beforeAll => "beforeAll"
  | beforeEach => "beforeEach"
  | declareDependencies => "declareDependencies"
  | declareMethods => "declareMethods"
  | declareVariables => "declareVariables"
  | inEachBegin => "inEachBegin"
  | inEachEnd => "inEachEnd"

def ofName? (name : String) : Option Kind :=
  all.find? (·.name == name)

open Json (Reader Misfit)

/-- A kind is written as its name, or as an object with the name as only key and nothing in it. -/
def read : Reader Kind
  | .string s => known s
  | .object [(key, d)] => do
    let kind ← known key
    match d with
    | .null => return kind
    | d => throw (.wrongType d.found "unit")
  | .object _ => .error (.wrongValue .map "map with a single key")
  | d => .error (.wrongType d.found "string or map")
where
  known (s : String) : Except Misfit Kind :=
    match ofName? s with
    | some kind => .ok kind
    | none => .error (.unknownVariant s (all.map name))

end Hook.Kind

/-- A place with its fixed lines and the lines registered so far, which stand between them `depth`
levels deeper. -/
structure Hook where
  kind : Hook.Kind
  opening : List Line
  closing : List Line
  depth : Nat
  registered : List Line

namespace Hook

def bare (kind : Kind) (opening : List Line) : Hook :=
  ⟨kind, opening, [], 0, []⟩

def method (kind : Kind) (name : String) : Hook :=
  ⟨kind, [⟨0, "public function " ++ name ++ "() \x7b"⟩], [⟨0, "\x7d"⟩], 1, []⟩

/-- The head of every file up to the imports. -/
def fileHead : List Line :=
  ["<?php",
    "",
    "/** phpcs:ignoreFile */",
    "",
    "declare(strict_types=1);",
    "",
    "namespace App\\Tests\\acceptance;",
    "",
    "use App\\Tests\\AcceptanceTester;",
    "use Codeception\\Util\\Fixtures;",
    "use Facebook\\WebDriver\\Remote\\RemoteWebDriver;",
    "use Facebook\\WebDriver\\WebDriverKeys;",
    "use Facebook\\WebDriver\\WebDriverExpectedCondition;",
    "use Facebook\\WebDriver\\WebDriverBy;",
    "use InvalidArgumentException;",
    "use RuntimeException;"].map (Line.mk 0)

/-- The hook of a kind with nothing registered. -/
def initial (kind : Kind) : Hook :=
  match kind with
  | .afterAll => method kind "_afterSuite"
  | .afterEach => method kind "_after"
  | .beforeAll => method kind "_initialize"
  | .beforeEach => method kind "_before"
  | .declareDependencies => bare kind fileHead
  | .declareVariables => bare kind [⟨0, "private array $vars = [];"⟩]
  | .declareMethods | .inEachBegin | .inEachEnd => bare kind []

def register (l : Line) (h : Hook) : Hook :=
  { h with registered := h.registered ++ [l] }

def hasRegistrations (h : Hook) : Bool :=
  !h.registered.isEmpty

def render (h : Hook) : List Line :=
  h.opening ++ h.registered.map (Line.raise h.depth) ++ h.closing

/-- The hooks around all tests appear once they hold something; the others also when they have
fixed lines. -/
def isRendered (h : Hook) : Bool :=
  match h.kind with
  | .beforeAll | .afterAll => h.hasRegistrations
  | _ => h.hasRegistrations || !h.opening.isEmpty

end Hook

/-- One hook of each kind. -/
structure Hooks where
  get : Hook.Kind → Hook

namespace Hooks

def initial : Hooks :=
  ⟨Hook.initial⟩

def register (kind : Hook.Kind) (l : Line) (hs : Hooks) : Hooks :=
  ⟨fun k => if k = kind then (hs.get k).register l else hs.get k⟩

end Hooks

end CestWriter
