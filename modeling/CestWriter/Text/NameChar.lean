/-! The characters of names: ASCII letters, digits and the underscore. -/

namespace CestWriter.Text

def isNameChar (c : Char) : Bool :=
  c.isAlphanum || c == '_'

end CestWriter.Text
