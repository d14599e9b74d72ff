/-!
# Text of sequences

Items in order with a separator between neighbours, bare or in brackets.
-/

namespace Recognizer.Text

/-- The items in order, with `separator` between neighbours. -/
def joined (separator : String) (items : List String) : String :=
  separator.intercalate items

/-- The items in square brackets, with a comma and a space between neighbours. -/
def bracketed (items : List String) : String :=
  "[" ++ joined ", " items ++ "]"

end Recognizer.Text
