/-! Tables from names to values, as lists with ascending names. -/

namespace CestWriter.Table

variable {α : Type}

/-- Sets the value of a name, in the place of the old one or at the place of the name. -/
def set (name : String) (value : α) : List (String × α) → List (String × α)
  | [] => [(name, value)]
  | (n, v) :: rest =>
    if name < n then (name, value) :: (n, v) :: rest
    else if name = n then (name, value) :: rest
    else (n, v) :: set name value rest

/-- The table after setting one pair after another: of a repeated name the last value counts. -/
def ofList (pairs : List (String × α)) : List (String × α) :=
  pairs.foldl (fun table (name, value) => set name value table) []

end CestWriter.Table
