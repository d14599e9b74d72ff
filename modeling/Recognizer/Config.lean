import Recognizer.Text.Highlight

/-!
# Settings

What a builder does with the tree that it is driven through, and how its log shows that.
-/

namespace Recognizer

/-- How much the log of a construction shows. -/
inductive Verbosity
  /-- Rules, alternatives, errors and retractions, with tokens by their type. -/
  | brief
  /-- Matched tokens too, and the text of tokens. -/
  | verbose
  /-- Tokens with their text, index and position. -/
  | full
  deriving DecidableEq, Repr

/-- Settings of a construction. -/
structure Config where
  /-- Contexts and tokens are linked into a tree. If not, contexts are still created and their spans
  recorded, but all child lists stay empty. -/
  buildsTree : Bool
  verbosity : Verbosity
  highlight : Text.Highlight
  deriving DecidableEq, Repr

/-- Trees are built, and the log is brief and without highlighting. -/
def Config.default : Config :=
  ⟨true, .brief, .off⟩

instance : Inhabited Config := ⟨Config.default⟩

end Recognizer
