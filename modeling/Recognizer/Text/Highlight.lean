/-!
# Highlighting for terminals

A `Highlight` decides whether fragments of output are wrapped in terminal escapes. The shade of a
fragment says what it shows.
-/

namespace Recognizer.Text

/-- What a highlighted fragment shows. -/
inductive Shade
  /-- A rule name, in blue. -/
  | rule
  /-- Token text, in green. -/
  | token
  /-- An error mark, in red. -/
  | error
  /-- A position or a remark, dimmed. -/
  | dim
  deriving DecidableEq, Repr

/-- The terminal escape that starts a shade. -/
def Shade.code : Shade → String
  | .rule => "\x1b[34m"
  | .token => "\x1b[32m"
  | .error => "\x1b[31m"
  | .dim => "\x1b[2m"

/-- The terminal escape that ends every shade. -/
def Shade.reset : String :=
  "\x1b[0m"

/-- Whether fragments are highlighted. -/
structure Highlight where
  enabled : Bool
  deriving DecidableEq, Repr

namespace Highlight

/-- Every fragment is wrapped in its escapes. -/
def on : Highlight := ⟨true⟩

/-- Every fragment is left as it is. -/
def off : Highlight := ⟨false⟩

instance : Inhabited Highlight := ⟨off⟩

/-- The fragment in its shade, or as it is when highlighting is off. -/
def paint (highlight : Highlight) (shade : Shade) (fragment : String) : String :=
  if highlight.enabled then shade.code ++ fragment ++ Shade.reset else fragment

end Highlight

end Recognizer.Text
