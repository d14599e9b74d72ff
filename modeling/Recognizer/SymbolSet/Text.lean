import Recognizer.SymbolSet.Basic
import Recognizer.Text.Sequence

/-!
# Text of symbols and symbol sets

The two reserved symbols have names, every other symbol is written in decimal. A set is written as
its intervals, in braces unless it has exactly one member.
-/

namespace Recognizer

/-- A symbol by its name or in decimal. -/
def symbolName (x : Symbol) : String :=
  if x = endOfInput then "<EOF>"
  else if x = nothingConsumed then "<EPSILON>"
  else Text.int32 x

/-- Two symbols with two dots between them. -/
def rangeName (lo hi : Symbol) : String :=
  symbolName lo ++ ".." ++ symbolName hi

/-- One symbol alone, or the two ends of a longer interval. -/
def Interval.symbolText (iv : Interval) : String :=
  if iv.lo = iv.hi then symbolName iv.lo else rangeName iv.lo iv.hi

/-- The intervals of a set, in braces unless it has exactly one member. -/
def SymbolSet.text (set : SymbolSet) : String :=
  if set.isEmpty then "\x7b\x7d"
  else
    let body := Text.joined ", " (set.intervals.toList.map Interval.symbolText)
    if 1 < set.size then "\x7b" ++ body ++ "\x7d" else body

end Recognizer
