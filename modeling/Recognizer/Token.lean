import Recognizer.Index
import Recognizer.Text.Decimal
import Recognizer.Text.Whitespace

/-!
# Tokens

A token is one symbol of the input as the lexer hands it over. Only its type and its index in the
token stream matter to the recognizer; text and position are carried along for the renderings.
-/

namespace Recognizer

/-- A symbol of the input. -/
structure Token where
  type : Symbol
  /-- The position in the token stream; negative for a token from elsewhere. -/
  index : Int32
  text : Option String
  line : UInt32
  column : UInt32
  deriving DecidableEq, Repr

namespace Token

/-- A token without text, at line and column zero. -/
def ofType (type : Symbol) (index : Int32) : Token :=
  ⟨type, index, none, 0, 0⟩

/-- The token that ends the input. -/
def eof (index : Int32) : Token :=
  ofType endOfInput index

/-- The same token with a text. -/
def withText (token : Token) (text : String) : Token :=
  ⟨token.type, token.index, some text, token.line, token.column⟩

/-- The same token at another position. -/
def located (token : Token) (line column : UInt32) : Token :=
  ⟨token.type, token.index, token.text, line, column⟩

/-- The token ends the input. -/
def isEof (token : Token) : Bool :=
  token.type == endOfInput

/-- The type code in angle brackets. -/
def typeText (token : Token) : String :=
  "<" ++ Text.int32 token.type ++ ">"

/-- The text in trees: the token's own, or `<EOF>`, or the type code in angle brackets. -/
def displayText (token : Token) : String :=
  match token.text with
  | some text => text
  | none => if token.isEof then "<EOF>" else token.typeText

/-- Index, visible text, type and position in one line. -/
def describe (token : Token) : String :=
  "[@" ++ Text.int32 token.index ++ ",'" ++ Text.escape false token.displayText ++ "'," ++
    token.typeText ++ "," ++ Text.uint32 token.line ++ ":" ++ Text.uint32 token.column ++ "]"

end Token

end Recognizer
