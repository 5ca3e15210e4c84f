import CestWriter.Emission.Action
import CestWriter.Emission.Form
import CestWriter.Emission.Locator
import CestWriter.Identifier
import CestWriter.Number.Decimal
import CestWriter.Recording.Argument
import CestWriter.Recording.Basic
import CestWriter.Text.Blank

/-! What each action is written as. -/

namespace CestWriter

open Php (Piece Statement)

/-- What a step is written against: the address that relative targets continue, and how
locators are written. -/
structure Setting where
  baseUrl : String
  locators : LocatorWriter

namespace Emission

/-! ## Arguments -/

/-- Milliseconds that a wait lasts when its timeout is empty. -/
def defaultWait : Int := 30000

/-- A recorded number without its fraction; an empty one is `ifEmpty`. -/
def floored (what : String) (ifEmpty : Int) (raw : String) : Except EmitError Int :=
  let text := Text.trim raw
  if text.isEmpty then .ok ifEmpty
  else match Number.floor64? text with
    | some n => .ok n
    | none => .error (.badArgument (.number what text))

def timeout (raw : String) : Except EmitError Int :=
  floored "timeout" defaultWait raw

/-- A repeat count: a number, or anything else cast to one when the test runs. -/
def repeatCount (prepared : String) : Except EmitError Statement :=
  let text := Text.trim prepared
  match Number.floor64? text with
  | some n => .ok [.int n]
  | none =>
    if text.isEmpty then .error (.badArgument .noRepeatCount)
    else .ok [.code "(int) ", .quoted prepared]

/-- Width and height with an `x` between them. -/
def windowSize (raw : String) : Except EmitError (Nat × Nat) :=
  let size : Option (Nat × Nat) := do
    let (width, height) ← Text.cut? 'x' raw
    let width ← Number.whole? Number.limit32 (Text.trim width)
    let height ← Number.whole? Number.limit32 (Text.trim height)
    some (width, height)
  match size with
  | some size => .ok size
  | none => .error (.badArgument (.windowSize raw))

def isAbsoluteUrl (target : String) : Bool :=
  ["file://", "http://", "https://"].any (Text.startsWith · target)

/-- Prepared text of an address: an absolute target, or the base address with the target after it. -/
def address (baseUrl prepared : String) : String :=
  if isAbsoluteUrl prepared then prepared else Php.escape baseUrl ++ prepared

/-- The arguments that pass stored variables to a script, if it has references. -/
def scriptArguments (argv : List String) : Statement :=
  if argv.isEmpty then []
  else [.code ", ["] ++ (argv.map Piece.slot).intersperse (.code ",") ++ [.code "]"]

/-- Runs a script in the page, with `before` and `after` around its text. -/
def runInPage (before after : String) (s : Script) : Statement :=
  [.code "$i->executeJS(", .literal (before ++ s.script ++ after)] ++ scriptArguments s.argv ++
    [.code ")"]

/-- The value of a condition, worked out in the page. -/
def condition (raw : String) : Statement :=
  runInPage "return (" ")" (Argument.script raw)

/-- Runs a script that reports back through a callback. Its text stands in the literal as it is. -/
def runAsync (s : Script) : Statement :=
  [.expression ("$i->executeAsyncJS('var callback = arguments[arguments.length - 1];" ++ s.script ++
    ".then(callback).catch(callback);'")] ++ scriptArguments s.argv ++ [.code ")"]

/-- Stores the value of a call under a name, or just makes the call. -/
def callOrStore (call : Statement) (name : String) : Form :=
  .statement (if name.isEmpty then call ++ [.code ";"] else Statement.assign name call)

def keyArgument : KeyPart → Statement
  | .text text => [.literal text]
  | .variable name => [.slot name]
  | .key name => [.code "WebDriverKeys::", .word name]

/-- The items of a key sequence as arguments; an empty sequence is an empty literal. -/
def keyArguments (parts : List KeyPart) : Statement :=
  if parts.isEmpty then [.literal ""] else Statement.commas (parts.map keyArgument)

/-! ## Forms -/

/-- A statement that opens or closes a level. -/
def flow (s : Statement) (before after : Int) : Form :=
  .block [(0, s)] before after

def mouse (element : String) (gesture : String) : Form :=
  .flat (Form.withDriver none [Form.findElement element,
    [.code "$driver->action()->moveToElement($element)", .code gesture, .code "->perform();"]])

/-- An assertion on whether an element can be edited. -/
def editable (element assertion : String) : Form :=
  .flat (Form.fetchElement element ++ [(0, Statement.act assertion [[.code "$element->isEnabled()"]])])

/-- Waits through the driver until a condition on `$element` holds. -/
def driverWait (element : String) (limit : Int) (goal : String) : Form :=
  .flat (Form.withDriver none [Form.findElement element,
    [.code "$driver->wait(", .int limit, .code ")->until(", .code goal, .code ");"]])

def nthWindow (n : Nat) : Form :=
  .flat (Form.withDriver none [
    [.code "$driver->switchTo()->window($driver->getWindowHandles()[", .int n, .code "]);"]])

/-- A window is given by handle, by name, or by its place in the order of opening. -/
def selectWindow (prepared : String) : Except EmitError Form :=
  match Text.after? "handle=" prepared, Text.after? "name=" prepared, Text.after? "win_ser_" prepared with
  | some handle, _, _ => .ok (.act "switchToWindow" [[.quoted handle]])
  | none, some name, _ => .ok (.act "switchToWindow" [[.quoted name]])
  | none, none, some "local" => .ok (nthWindow 0)
  | none, none, some serial =>
    match Number.whole? Number.limit64 serial with
    | some n => .ok (nthWindow n)
    | none => .error (.badArgument (.windowSerial prepared))
  | none, none, none => .error (.badArgument .windowTarget)

/-- A frame is the one around, one of a number, or one that a locator finds. -/
def selectFrame (w : LocatorWriter) (prepared : String) : Except EmitError Form := do
  if prepared = "relative=top" ∨ prepared = "relative=parent" then return .act "switchToFrame" []
  match Text.after? "index=" prepared with
  | some index =>
    let n ← floored "frame index" 0 index
    return .flat (Form.withDriver none [[.code "$driver->switchTo()->frame(", .int n, .code ");"]])
  | none => return .act "switchToFrame" [[.expression (← w.locator prepared)]]

/-- The attribute of an element, given as the element's locator, an at sign and the name. -/
def storeAttribute (w : LocatorWriter) (prepared name : String) : Except EmitError Form := do
  match Text.cutLast? '@' prepared with
  | none => throw (.badArgument (.attributeLocator prepared))
  | some (locator, key) =>
    let element ← w.locator locator
    return .capture "attribute" [.code "$driver->findElement(", .expression element,
      .code ")->getAttribute(", .quoted key, .code ")"] name

/-- Runs the first statement `count` times over; the body follows. -/
def times (prepared : String) : Except EmitError Form := do
  let count ← repeatCount prepared
  return .block [(0, [.code "$times = "] ++ count ++ [.code ";"]),
    (0, [.code "for ($c = 0; $c < $times; $c++) \x7b"])] 0 1

/-- Visits the elements of a stored list; the body follows. -/
def forEach (collection item : String) : Form :=
  .block [(0, [.code "$collection = ", .slot collection, .code ";"]),
    (0, [.code "for ($c = 0; $c < count($collection); $c++) \x7b"]),
    (1, [.slot item, .code " = $collection[$c];"])] 0 1

def runTest (name : String) : Except EmitError Form :=
  let method := Identifier.helperName name
  if method.isEmpty then .error (.badArgument (.testName name))
  else .ok (.statement [.code "$this->", .word method, .code "($i);"])

def setWindowSize (raw : String) : Except EmitError Form := do
  let (width, height) ← windowSize raw
  return .act "resizeWindow" [[.int width], [.int height]]

end Emission

/-! ## Actions -/

open Emission in
/-- What an action is written as for a step. Targets and values that become text are prepared
first; scripts, keys, numbers and variable names are taken as recorded. -/
def Action.compose (a : Action) (setting : Setting) (s : Step) : Except EmitError Form := do
  let target := Argument.text s.target
  let value := Argument.text s.value
  let w := setting.locators
  match a with
  | openPage => return .statement [.code "$i->amOnUrl(", .quoted (address setting.baseUrl target), .code ");"]
  | closeTab => return .act "closeTab" []
  | setWindowSize => Emission.setWindowSize s.target
  | selectWindow => Emission.selectWindow target
  | selectFrame => Emission.selectFrame w target
  | click => return .act "click" [[.expression (← w.locator target)]]
  | doubleClick => return .act "doubleClick" [[.expression (← w.locator target)]]
  | check => return .act "checkOption" [[.expression (← w.locator target)]]
  | uncheck => return .act "uncheckOption" [[.expression (← w.locator target)]]
  | dragAndDrop =>
    return .act "dragAndDrop" [[.expression (← w.locator target)], [.expression (← w.locator value)]]
  | selectOption =>
    return .act "selectOption" [[.expression (← w.locator target)], [.expression (← w.option value)]]
  | sendKeys =>
    return .act "pressKey" [[.expression (← w.locator target)], keyArguments (Argument.keys s.value)]
  | editContent =>
    return .flat (Form.fetchElement (← w.locator target) ++ [(0, Statement.act "executeJS" [
      [.literal "if (arguments[0].contentEditable === 'true') \x7b arguments[0].innerText = arguments[1]; \x7d"],
      [.code "[$element, ", .quoted value, .code "]"]])])
  | mouseDown => return mouse (← w.locator target) "->clickAndHold()"
  | mouseMove => return mouse (← w.locator target) ""
  | mouseUp => return mouse (← w.locator target) "->release()"
  | mouseOut => return mouse "WebDriverBy::cssSelector('body')" ""
  | submit =>
    return .statement [.code "throw new InvalidArgumentException(",
      .literal "`submit` is not a supported command in Selenium Webdriver. Please re-record the step in the IDE.",
      .code ");"]
  | acceptPopup => return .act "acceptPopup" []
  | cancelPopup => return .act "cancelPopup" []
  | answerOnVisiblePrompt =>
    return .flat [(0, Statement.act "typeInPopup" [[.quoted target]]), (0, Statement.act "acceptPopup" [])]
  | assertAlert => return .act "seeInPopup" [[.quoted target]]
  | assertStored => return .act "assertEquals" [[.slot s.target], [.quoted value]]
  | verifyChecked => return .act "seeCheckboxIsChecked" [[.expression (← w.locator target)]]
  | verifyNotChecked => return .act "dontSeeCheckboxIsChecked" [[.expression (← w.locator target)]]
  | verifyEditable => return editable (← w.locator target) "assertTrue"
  | verifyNotEditable => return editable (← w.locator target) "assertFalse"
  | verifyElementPresent => return .act "seeElementInDOM" [[.expression (← w.locator target)]]
  | verifyElementNotPresent => return .act "dontSeeElementInDOM" [[.expression (← w.locator target)]]
  | verifyText => return .act "see" [[.quoted value], [.expression (← w.locator target)]]
  | verifyNotText => return .act "dontSee" [[.quoted value], [.expression (← w.locator target)]]
  | verifyTitle => return .act "seeInTitle" [[.quoted target]]
  | verifyValue =>
    return .act "seeElement" [[.expression (← w.locator target)],
      [.code "[", .literal "value", .code " => ", .quoted value, .code "]"]]
  | verifySelectedLabel =>
    return .act "seeOptionIsSelected" [[.expression (← w.locator target)], [.quoted value]]
  | verifyNotSelectedValue =>
    return .act "seeOptionIsNotSelected" [[.expression (← w.locator target)], [.quoted value]]
  | pause => return .act "wait" [[.int (← floored "pause duration" 0 s.target)]]
  | setSpeed =>
    return .statement [.code "codecept_debug(",
      .literal "\"set speed\" is a no-op in code export, use \"pause\" instead", .code ");"]
  | waitForElementPresent =>
    return .act "waitForElement" [[.expression (← w.locator target)], [.int (← timeout s.value)]]
  | waitForElementVisible =>
    return .act "waitForElementVisible" [[.expression (← w.locator target)], [.int (← timeout s.value)]]
  | waitForElementNotVisible =>
    return .act "waitForElementNotVisible" [[.expression (← w.locator target)], [.int (← timeout s.value)]]
  | waitForElementNotPresent =>
    return driverWait (← w.locator target) (← timeout s.value)
      "WebDriverExpectedCondition::stalenessOf($element)"
  | waitForElementEditable =>
    return driverWait (← w.locator target) (← timeout s.value)
      "function () use ($element) \x7b return $element->isEnabled(); \x7d"
  | waitForElementNotEditable =>
    return driverWait (← w.locator target) (← timeout s.value)
      "function () use ($element) \x7b return !$element->isEnabled(); \x7d"
  | waitForText =>
    return .act "waitForText" [[.quoted value], [.int defaultWait], [.expression (← w.locator target)]]
  | runScript => return .statement (runInPage "" "" (Argument.script s.target) ++ [.code ";"])
  | executeScript => return callOrStore (runInPage "" "" (Argument.script s.target)) s.value
  | executeAsyncScript => return callOrStore (runAsync (Argument.script s.target)) s.value
  | store => return .statement (Statement.assign s.value [.quoted target])
  | storeJson =>
    return .statement (Statement.assign s.value [.code "json_decode(", .quoted target, .code ", true)"])
  | storeAttribute => Emission.storeAttribute w target s.value
  | storeText =>
    return .capture "text" [.code "$driver->findElement(", .expression (← w.locator target),
      .code ")->getText()"] s.value
  | storeTitle => return .capture "title" [.code "$driver->getTitle()"] s.value
  | storeValue =>
    return .capture "value" [.code "$driver->findElement(", .expression (← w.locator target),
      .code ")->getAttribute(", .literal "value", .code ")"] s.value
  | storeWindowHandle => return .capture "handle" [.code "$driver->getWindowHandle()"] s.target
  | storeXpathCount =>
    return .capture "count" [.code "count($driver->findElements(", .expression (← w.locator target),
      .code "))"] s.value
  | ifBranch => return flow ([.code "if ("] ++ condition s.target ++ [.code ") \x7b"]) 0 1
  | elseIf => return flow ([.code "\x7d elseif ("] ++ condition s.target ++ [.code ") \x7b"]) (-1) 1
  | elseBranch => return flow [.code "\x7d else \x7b"] (-1) 1
  | whileLoop => return flow ([.code "while ("] ++ condition s.target ++ [.code ") \x7b"]) 0 1
  | doLoop => return flow [.code "do \x7b"] 0 1
  | repeatIf => return flow ([.code "\x7d while ("] ++ condition s.target ++ [.code ");"]) (-1) 0
  | times => Emission.times target
  | forEach => return Emission.forEach s.target s.value
  | endBlock => return flow [.code "\x7d"] (-1) 0
  | runTest => Emission.runTest s.target
  | echo => return .statement [.code "codecept_debug(", .quoted target, .code ");"]
  | skip => return .statement []

end CestWriter
