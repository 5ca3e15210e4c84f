/-! Stored variables are kept in one array of the generated class, a slot for each name. -/

namespace CestWriter.Php

/-- Reads the slot of a variable. -/
def slot (name : String) : String :=
  "$this->vars['" ++ name ++ "']"

/-- Stores a value into the slot of a variable; nothing is stored under an empty name. -/
def store (name value : String) : String :=
  if name.isEmpty then "" else slot name ++ " = " ++ value ++ ";"

end CestWriter.Php
