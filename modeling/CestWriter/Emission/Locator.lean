import CestWriter.Emission.Error
import CestWriter.Php.Quoted
import CestWriter.Text.Cut

/-! Locators name elements of a page and option selectors name choices of a list. Both arrive as
prepared text and leave as PHP expressions. -/

namespace CestWriter

/-- How locators and option selectors are written as expressions. -/
structure LocatorWriter where
  locator : String → Except EmitError String
  option : String → Except EmitError String

namespace Locator

/-- The factory method for a strategy. -/
def method? : String → Option String
  | "id" => some "id"
  | "name" => some "name"
  | "css" => some "cssSelector"
  | "xpath" => some "xpath"
  | "link" | "linkText" => some "linkText"
  | "partialLinkText" => some "partialLinkText"
  | _ => none

/-- A call of the factory for element searches. -/
def search (method prepared : String) : String :=
  "WebDriverBy::" ++ method ++ "(" ++ Php.quote prepared ++ ")"

/-- A locator is `strategy=value`, or an XPath that begins with two slashes. -/
def element (locator : String) : Except EmitError String :=
  if Text.startsWith "//" locator then .ok (search "xpath" locator)
  else match Text.cut? '=' locator with
    | none => .error (.badArgument (.unknownLocator locator))
    | some (strategy, value) =>
      match method? strategy with
      | none => .error (.badArgument (.unknownLocator strategy))
      | some method => .ok (search method value)

/-- A selection of an option by its text or its value. -/
def pick (key prepared : String) : String :=
  "['" ++ key ++ "' => " ++ Php.quote prepared ++ "]"

/-- An option selector is `label=text`, `value=value` or the text alone. -/
def option (selector : String) : Except EmitError String :=
  match Text.cut? '=' selector with
  | some ("label", text) => .ok (pick "text" text)
  | some ("value", value) => .ok (pick "value" value)
  | some ("id", _) => .error (.badArgument (.optionKind "id"))
  | some ("index", _) => .error (.badArgument (.optionKind "index"))
  | _ => .ok (pick "text" selector)

end Locator

/-- Elements through the factory `WebDriverBy`, options by text or value. -/
def LocatorWriter.webDriver : LocatorWriter :=
  ⟨Locator.element, Locator.option⟩

end CestWriter
