/-!
# Visible whitespace

`escape` keeps a text on one line: a line feed, a carriage return and a tab are written as a
backslash and a letter. With spaces made visible too, a space is written as a middle dot. All other
characters, the backslash included, are kept, so the written form is meant for reading only.
-/

namespace Recognizer.Text

/-- The written form of one character. -/
def visible (spaces : Bool) (c : Char) : List Char :=
  match c with
  | ' ' => if spaces then ['\u00b7'] else [' ']
  | '\n' => ['\\', 'n']
  | '\r' => ['\\', 'r']
  | '\t' => ['\\', 't']
  | c => [c]

/-- The text with its line breaks and tabs made visible, and its spaces too if `spaces` is set. -/
def escape (spaces : Bool) (text : String) : String :=
  String.ofList (text.toList.flatMap (visible spaces))

end Recognizer.Text
