import CestWriter.Emission.Action
import CestWriter.Emission.Compose
import Mathlib.Data.List.Basic

/-! # The templates of the actions

A template is the code that an action always writes, with holes for what depends on the recording.
An action with several forms has a template for each of them. -/

namespace CestWriter

inductive Part
  /-- Fixed code. -/
  | code (text : String)
  /-- One closed literal. -/
  | literal
  /-- A stored variable. -/
  | slot
  /-- Closed literals and stored variables, joined by dots. -/
  | expression
  /-- A call of a locator factory. -/
  | locator
  /-- An option selection. -/
  | option
  | integer
  /-- A method name or a constant name. -/
  | word
  /-- The argument that passes stored variables to a script, if there is one. -/
  | slots
  /-- The arguments of a key sequence. -/
  | keys
  deriving DecidableEq

/-- The parts of one line. -/
abbrev Row := List Part

/-- Rows at relative levels, and how the level around them changes before and after them. -/
structure Template where
  rows : List (Nat × Row)
  before : Int
  after : Int
  deriving DecidableEq

namespace Row

def commas (args : List Row) : Row :=
  (args.intersperse [.code ", "]).flatten

def act (method : String) (args : List Row) : Row :=
  [.code "$i->", .code method, .code "("] ++ commas args ++ [.code ");"]

def assign (value : Row) : Row :=
  .slot :: .code " = " :: value ++ [.code ";"]

/-- A call that runs a script in the page. -/
def script : Row :=
  [.code "$i->executeJS(", .literal, .slots, .code ")"]

def findElement : Row :=
  [.code "$element = $driver->findElement(", .locator, .code ");"]

/-- Rows inside of a closure that is given the browser driver. -/
def withDriver (shared : Option String) (body : List Row) : List (Nat × Row) :=
  let opening : Row := match shared with
    | some temporary =>
      [.code "$i->executeInSelenium(function (RemoteWebDriver $driver) use (&$", .code temporary,
        .code ") \x7b"]
    | none => [.code "$i->executeInSelenium(function (RemoteWebDriver $driver) \x7b"]
  (0, opening) :: body.map ((1, ·)) ++ [(0, [.code "\x7d);"])]

def fetchElement : List (Nat × Row) :=
  (0, [.code "$element = null;"]) :: withDriver (some "element") [findElement]

end Row

namespace Template

/-- No line at all. -/
def nothing : Template :=
  ⟨[], 0, 0⟩

def flat (rows : List (Nat × Row)) : Template :=
  ⟨rows, 0, 0⟩

def statement (row : Row) : Template :=
  flat [(0, row)]

def act (method : String) (args : List Row) : Template :=
  statement (.act method args)

def flow (row : Row) (before after : Int) : Template :=
  ⟨[(0, row)], before, after⟩

/-- A value is read through the driver, and kept if it has a name. -/
def capture (temporary : String) (value : Row) : List Template :=
  let rows := (0, [.code "$", .code temporary, .code " = null;"]) ::
    Row.withDriver (some temporary) [[.code "$", .code temporary, .code " = "] ++ value ++ [.code ";"]]
  [flat rows, flat (rows ++ [(0, Row.assign [.code "$", .code temporary])])]

def mouse (gesture : String) : Template :=
  flat (Row.withDriver none [Row.findElement,
    [.code "$driver->action()->moveToElement($element)", .code gesture, .code "->perform();"]])

def editable (assertion : String) : Template :=
  flat (Row.fetchElement ++ [(0, Row.act assertion [[.code "$element->isEnabled()"]])])

def driverWait (goal : String) : Template :=
  flat (Row.withDriver none [Row.findElement,
    [.code "$driver->wait(", .integer, .code ")->until(", .code goal, .code ");"]])

def repeated (count : Row) : Template :=
  ⟨[(0, [.code "$times = "] ++ count ++ [.code ";"]),
    (0, [.code "for ($c = 0; $c < $times; $c++) \x7b"])], 0, 1⟩

end Template

namespace Action

/-- The templates of an action. A script that reports back is not made from a template: its text
stands in the code as it was recorded. -/
def templates : Action → List Template
  | openPage => [.statement [.code "$i->amOnUrl(", .expression, .code ");"]]
  | closeTab => [.act "closeTab" []]
  | setWindowSize => [.act "resizeWindow" [[.integer], [.integer]]]
  | selectWindow => [.act "switchToWindow" [[.expression]], .flat (Row.withDriver none [
      [.code "$driver->switchTo()->window($driver->getWindowHandles()[", .integer, .code "]);"]])]
  | selectFrame => [.act "switchToFrame" [], .act "switchToFrame" [[.locator]],
      .flat (Row.withDriver none [[.code "$driver->switchTo()->frame(", .integer, .code ");"]])]
  | click => [.act "click" [[.locator]]]
  | doubleClick => [.act "doubleClick" [[.locator]]]
  | check => [.act "checkOption" [[.locator]]]
  | uncheck => [.act "uncheckOption" [[.locator]]]
  | dragAndDrop => [.act "dragAndDrop" [[.locator], [.locator]]]
  | selectOption => [.act "selectOption" [[.locator], [.option]]]
  | sendKeys => [.act "pressKey" [[.locator], [.keys]]]
  | editContent => [.flat (Row.fetchElement ++ [(0, Row.act "executeJS" [[.literal],
      [.code "[$element, ", .expression, .code "]"]])])]
  | mouseDown => [.mouse "->clickAndHold()"]
  | mouseMove => [.mouse ""]
  | mouseUp => [.mouse "->release()"]
  | mouseOut => [.mouse ""]
  | submit => [.statement [.code "throw new InvalidArgumentException(", .literal, .code ");"]]
  | acceptPopup => [.act "acceptPopup" []]
  | cancelPopup => [.act "cancelPopup" []]
  | answerOnVisiblePrompt =>
    [.flat [(0, Row.act "typeInPopup" [[.expression]]), (0, Row.act "acceptPopup" [])]]
  | assertAlert => [.act "seeInPopup" [[.expression]]]
  | assertStored => [.act "assertEquals" [[.slot], [.expression]]]
  | verifyChecked => [.act "seeCheckboxIsChecked" [[.locator]]]
  | verifyNotChecked => [.act "dontSeeCheckboxIsChecked" [[.locator]]]
  | verifyEditable => [.editable "assertTrue"]
  | verifyNotEditable => [.editable "assertFalse"]
  | verifyElementPresent => [.act "seeElementInDOM" [[.locator]]]
  | verifyElementNotPresent => [.act "dontSeeElementInDOM" [[.locator]]]
  | verifyText => [.act "see" [[.expression], [.locator]]]
  | verifyNotText => [.act "dontSee" [[.expression], [.locator]]]
  | verifyTitle => [.act "seeInTitle" [[.expression]]]
  | verifyValue => [.act "seeElement" [[.locator],
      [.code "[", .literal, .code " => ", .expression, .code "]"]]]
  | verifySelectedLabel => [.act "seeOptionIsSelected" [[.locator], [.expression]]]
  | verifyNotSelectedValue => [.act "seeOptionIsNotSelected" [[.locator], [.expression]]]
  | pause => [.act "wait" [[.integer]]]
  | setSpeed => [.statement [.code "codecept_debug(", .literal, .code ");"]]
  | waitForElementPresent => [.act "waitForElement" [[.locator], [.integer]]]
  | waitForElementVisible => [.act "waitForElementVisible" [[.locator], [.integer]]]
  | waitForElementNotVisible => [.act "waitForElementNotVisible" [[.locator], [.integer]]]
  | waitForElementNotPresent => [.driverWait "WebDriverExpectedCondition::stalenessOf($element)"]
  | waitForElementEditable =>
    [.driverWait "function () use ($element) \x7b return $element->isEnabled(); \x7d"]
  | waitForElementNotEditable =>
    [.driverWait "function () use ($element) \x7b return !$element->isEnabled(); \x7d"]
  | waitForText => [.act "waitForText" [[.expression], [.integer], [.locator]]]
  | runScript => [.statement (Row.script ++ [.code ";"])]
  | executeScript => [.statement (Row.script ++ [.code ";"]), .statement (Row.assign Row.script)]
  | executeAsyncScript => []
  | store => [.nothing, .statement (Row.assign [.expression])]
  | storeJson =>
    [.nothing, .statement (Row.assign [.code "json_decode(", .expression, .code ", true)"])]
  | storeAttribute => Template.capture "attribute"
      [.code "$driver->findElement(", .locator, .code ")->getAttribute(", .expression, .code ")"]
  | storeText => Template.capture "text" [.code "$driver->findElement(", .locator, .code ")->getText()"]
  | storeTitle => Template.capture "title" [.code "$driver->getTitle()"]
  | storeValue => Template.capture "value"
      [.code "$driver->findElement(", .locator, .code ")->getAttribute(", .literal, .code ")"]
  | storeWindowHandle => Template.capture "handle" [.code "$driver->getWindowHandle()"]
  | storeXpathCount =>
    Template.capture "count" [.code "count($driver->findElements(", .locator, .code "))"]
  | ifBranch => [.flow ([.code "if ("] ++ Row.script ++ [.code ") \x7b"]) 0 1]
  | elseIf => [.flow ([.code "\x7d elseif ("] ++ Row.script ++ [.code ") \x7b"]) (-1) 1]
  | elseBranch => [.flow [.code "\x7d else \x7b"] (-1) 1]
  | whileLoop => [.flow ([.code "while ("] ++ Row.script ++ [.code ") \x7b"]) 0 1]
  | doLoop => [.flow [.code "do \x7b"] 0 1]
  | repeatIf => [.flow ([.code "\x7d while ("] ++ Row.script ++ [.code ");"]) (-1) 0]
  | times => [.repeated [.integer], .repeated [.code "(int) ", .expression]]
  | forEach => [⟨[(0, [.code "$collection = ", .slot, .code ";"]),
      (0, [.code "for ($c = 0; $c < count($collection); $c++) \x7b"]),
      (1, [.slot, .code " = $collection[$c];"])], 0, 1⟩]
  | endBlock => [.flow [.code "\x7d"] (-1) 0]
  | runTest => [.statement [.code "$this->", .word, .code "($i);"]]
  | echo => [.statement [.code "codecept_debug(", .expression, .code ");"]]
  | skip => [.nothing]

/-- The arguments that an action takes as names of variables. -/
def rawNames (s : Step) : Action → List String
  | store | storeJson | storeAttribute | storeText | storeTitle | storeValue | storeXpathCount
  | executeScript => [s.value]
  | assertStored | storeWindowHandle => [s.target]
  | forEach => [s.target, s.value]
  | _ => []

end Action

/-! ## Steps that open a window -/

namespace Template

/-- The template of a step around which a new window is awaited. -/
def windowed (t : Template) : List Template :=
  let snapshot := Row.withDriver none [[.slot, .code " = $driver->getWindowHandles();"]]
  let wait : Row := [.code "$this->waitForWindow($i, ", .integer, .code ")"]
  [⟨snapshot ++ t.rows ++ [(0, wait ++ [.code ";"])], t.before, t.after⟩,
    ⟨snapshot ++ t.rows ++ [(0, Row.assign wait)], t.before, t.after⟩]

end Template

end CestWriter
