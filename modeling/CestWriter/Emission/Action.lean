/-! The actions that recorded commands stand for. Several commands may stand for one action. -/

namespace CestWriter

inductive Action
  -- Pages, windows and frames.
  | openPage | closeTab | setWindowSize | selectWindow | selectFrame
  -- Acting on elements.
  | click | doubleClick | check | uncheck | dragAndDrop | selectOption | sendKeys | editContent
  | mouseDown | mouseMove | mouseOut | mouseUp | submit
  -- Popups.
  | acceptPopup | cancelPopup | answerOnVisiblePrompt | assertAlert
  -- Comparing what the page shows with what was recorded.
  | assertStored | verifyChecked | verifyNotChecked | verifyEditable | verifyNotEditable
  | verifyElementPresent | verifyElementNotPresent | verifyText | verifyNotText | verifyTitle
  | verifyValue | verifySelectedLabel | verifyNotSelectedValue
  -- Waiting.
  | pause | setSpeed | waitForElementPresent | waitForElementNotPresent | waitForElementVisible
  | waitForElementNotVisible | waitForElementEditable | waitForElementNotEditable | waitForText
  -- Scripts.
  | runScript | executeScript | executeAsyncScript
  -- Keeping values.
  | store | storeJson | storeAttribute | storeText | storeTitle | storeValue | storeWindowHandle
  | storeXpathCount
  -- Control flow.
  | ifBranch | elseIf | elseBranch | whileLoop | doLoop | repeatIf | times | forEach | endBlock
  | runTest
  -- Other.
  | echo | skip
  deriving DecidableEq

namespace Action

/-- The name under which an action is reported. -/
def name : Action → String
  | acceptPopup => "AcceptPopup"
  | answerOnVisiblePrompt => "AnswerOnVisiblePrompt"
  | assertStored => "Assert"
  | assertAlert => "AssertAlert"
  | cancelPopup => "CancelPopup"
  | check => "Check"
  | click => "Click"
  | closeTab => "Close"
  | doLoop => "Do"
  | doubleClick => "DoubleClick"
  | dragAndDrop => "DragAndDrop"
  | echo => "Echo"
  | editContent => "EditContent"
  | elseBranch => "Else"
  | elseIf => "ElseIf"
  | endBlock => "End"
  | executeAsyncScript => "ExecuteAsyncScript"
  | executeScript => "ExecuteScript"
  | forEach => "ForEach"
  | ifBranch => "If"
  | mouseDown => "MouseDown"
  | mouseMove => "MouseMove"
  | mouseOut => "MouseOut"
  | mouseUp => "MouseUp"
  | openPage => "Open"
  | pause => "Pause"
  | repeatIf => "RepeatIf"
  | runTest => "Run"
  | runScript => "RunScript"
  | selectOption => "Select"
  | selectFrame => "SelectFrame"
  | selectWindow => "SelectWindow"
  | sendKeys => "SendKeys"
  | setSpeed => "SetSpeed"
  | setWindowSize => "SetWindowSize"
  | skip => "Skip"
  | store => "Store"
  | storeAttribute => "StoreAttribute"
  | storeJson => "StoreJson"
  | storeText => "StoreText"
  | storeTitle => "StoreTitle"
  | storeValue => "StoreValue"
  | storeWindowHandle => "StoreWindowHandle"
  | storeXpathCount => "StoreXpathCount"
  | submit => "Submit"
  | times => "Times"
  | uncheck => "Uncheck"
  | verifyChecked => "VerifyChecked"
  | verifyEditable => "VerifyEditable"
  | verifyElementNotPresent => "VerifyElementNotPresent"
  | verifyElementPresent => "VerifyElementPresent"
  | verifyNotChecked => "VerifyNotChecked"
  | verifyNotEditable => "VerifyNotEditable"
  | verifyNotSelectedValue => "VerifyNotSelectedValue"
  | verifyNotText => "VerifyNotText"
  | verifySelectedLabel => "VerifySelectedLabel"
  | verifyText => "VerifyText"
  | verifyTitle => "VerifyTitle"
  | verifyValue => "VerifyValue"
  | waitForElementEditable => "WaitForElementEditable"
  | waitForElementNotEditable => "WaitForElementNotEditable"
  | waitForElementNotPresent => "WaitForElementNotPresent"
  | waitForElementNotVisible => "WaitForElementNotVisible"
  | waitForElementPresent => "WaitForElementPresent"
  | waitForElementVisible => "WaitForElementVisible"
  | waitForText => "WaitForText"
  | whileLoop => "While"

/-- The commands and their actions. -/
def table : List (String × Action) := [
  ("addSelection", .selectOption),
  ("answerOnNextPrompt", .skip),
  ("assert", .assertStored),
  ("assertAlert", .assertAlert),
  ("assertChecked", .verifyChecked),
  ("assertConfirmation", .assertAlert),
  ("assertEditable", .verifyEditable),
  ("assertElementPresent", .verifyElementPresent),
  ("assertElementNotPresent", .verifyElementNotPresent),
  ("assertNotChecked", .verifyNotChecked),
  ("assertNotEditable", .verifyNotEditable),
  ("assertNotSelectedValue", .verifyNotSelectedValue),
  ("assertNotText", .verifyNotText),
  ("assertPrompt", .assertAlert),
  ("assertSelectedLabel", .verifySelectedLabel),
  ("assertSelectedValue", .verifyValue),
  ("assertValue", .verifyValue),
  ("assertText", .verifyText),
  ("assertTitle", .verifyTitle),
  ("check", .check),
  ("chooseCancelOnNextConfirmation", .skip),
  ("chooseCancelOnNextPrompt", .skip),
  ("chooseOkOnNextConfirmation", .skip),
  ("click", .click),
  ("clickAt", .click),
  ("close", .closeTab),
  ("debugger", .skip),
  ("do", .doLoop),
  ("doubleClick", .doubleClick),
  ("doubleClickAt", .doubleClick),
  ("dragAndDropToObject", .dragAndDrop),
  ("echo", .echo),
  ("editContent", .editContent),
  ("else", .elseBranch),
  ("elseIf", .elseIf),
  ("end", .endBlock),
  ("executeScript", .executeScript),
  ("executeAsyncScript", .executeAsyncScript),
  ("forEach", .forEach),
  ("if", .ifBranch),
  ("mouseDown", .mouseDown),
  ("mouseDownAt", .mouseDown),
  ("mouseMove", .mouseMove),
  ("mouseMoveAt", .mouseMove),
  ("mouseOver", .mouseMove),
  ("mouseOut", .mouseOut),
  ("mouseUp", .mouseUp),
  ("mouseUpAt", .mouseUp),
  ("open", .openPage),
  ("pause", .pause),
  ("removeSelection", .selectOption),
  ("repeatIf", .repeatIf),
  ("run", .runTest),
  ("runScript", .runScript),
  ("select", .selectOption),
  ("selectFrame", .selectFrame),
  ("selectWindow", .selectWindow),
  ("sendKeys", .sendKeys),
  ("setSpeed", .setSpeed),
  ("setWindowSize", .setWindowSize),
  ("store", .store),
  ("storeAttribute", .storeAttribute),
  ("storeJson", .storeJson),
  ("storeText", .storeText),
  ("storeTitle", .storeTitle),
  ("storeValue", .storeValue),
  ("storeWindowHandle", .storeWindowHandle),
  ("storeXpathCount", .storeXpathCount),
  ("submit", .submit),
  ("times", .times),
  ("type", .sendKeys),
  ("uncheck", .uncheck),
  ("verify", .assertStored),
  ("verifyChecked", .verifyChecked),
  ("verifyEditable", .verifyEditable),
  ("verifyElementPresent", .verifyElementPresent),
  ("verifyElementNotPresent", .verifyElementNotPresent),
  ("verifyNotChecked", .verifyNotChecked),
  ("verifyNotEditable", .verifyNotEditable),
  ("verifyNotSelectedValue", .verifyNotSelectedValue),
  ("verifyNotText", .verifyNotText),
  ("verifySelectedLabel", .verifySelectedLabel),
  ("verifySelectedValue", .verifyValue),
  ("verifyText", .verifyText),
  ("verifyTitle", .verifyTitle),
  ("verifyValue", .verifyValue),
  ("waitForElementEditable", .waitForElementEditable),
  ("waitForElementPresent", .waitForElementPresent),
  ("waitForElementVisible", .waitForElementVisible),
  ("waitForElementNotEditable", .waitForElementNotEditable),
  ("waitForElementNotPresent", .waitForElementNotPresent),
  ("waitForElementNotVisible", .waitForElementNotVisible),
  ("waitForText", .waitForText),
  ("webdriverAnswerOnVisiblePrompt", .answerOnVisiblePrompt),
  ("webdriverChooseCancelOnVisibleConfirmation", .cancelPopup),
  ("webdriverChooseCancelOnVisiblePrompt", .cancelPopup),
  ("webdriverChooseOkOnVisibleConfirmation", .acceptPopup),
  ("while", .whileLoop)]

def ofCommand? (command : String) : Option Action :=
  table.lookup command

/-- Commands that only matter while recording are skipped. -/
def isSkip (a : Action) : Bool :=
  a == skip

end Action

end CestWriter
