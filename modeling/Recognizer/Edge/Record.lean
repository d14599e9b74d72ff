import Recognizer.Edge.Basic
import Recognizer.Edge.SetTable
import Recognizer.Text.Decimal

/-!
# Edge records

The persisted automaton stores an edge as five words: the code of its kind, a state, and three
arguments whose meaning depends on the kind. An argument that a kind does not use is ignored when a
record is read and zero when it is written.

| kind            | state  | first argument | second argument | third argument          |
|-----------------|--------|----------------|-----------------|-------------------------|
| `range`         | target | lowest symbol  | highest symbol  | set if it starts at EOF |
| `rule`          | follow | start state    | rule            | precedence              |
| `predicate`     | target | rule           | predicate       | set if in context       |
| `atom`          | target | symbol         |                 | set if it is EOF        |
| `action`        | target | rule           | action          | set if in context       |
| `set`, `notSet` | target | set position   |                 |                         |
| `precedence`    | target | level          |                 |                         |

Symbols and levels are stored as words below 0x80000000, so of the negative symbols only the end of
the input can be stored, by a flag. An action without an index is stored as 0xFFFF, below which all
indices stay. An epsilon edge loses the rule whose loop it leaves.
-/

namespace Recognizer

/-- An edge as it is stored. -/
structure EdgeRecord where
  kind : UInt32
  state : StateId
  arg1 : UInt32
  arg2 : UInt32
  arg3 : UInt32
  deriving DecidableEq, Repr

/-- Why a record cannot be read or an edge cannot be stored. -/
inductive RecordError
  /-- No kind has the code. -/
  | unknownKind (code : UInt32)
  /-- The set table, of the given size, ends before the position. -/
  | noSuchSet (position : UInt32) (size : Nat)
  /-- The symbol or level is negative and not stored by a flag. -/
  | unstorableSymbol (symbol : Int32)
  /-- The argument is too large for a symbol or level. -/
  | symbolTooLarge (argument : UInt32)
  /-- The action index is not below the mark for no index. -/
  | actionTooLarge (index : ActionIndex)
  deriving DecidableEq, Repr

/-- The wording of an error. -/
def RecordError.message : RecordError → String
  | unknownKind code => "unknown transition kind code " ++ Text.uint32 code
  | noSuchSet position size =>
    "set index " ++ Text.uint32 position ++ " out of range (automaton has " ++ size.repr ++ " sets)"
  | unstorableSymbol symbol =>
    "symbol " ++ Text.int32 symbol ++ " cannot be encoded in an edge record"
  | symbolTooLarge argument =>
    "edge argument " ++ Text.uint32 argument ++ " does not fit a signed symbol"
  | actionTooLarge index =>
    "action index " ++ Text.uint32 index ++ " out of range (must be below 0xFFFF)"

/-- The second argument of an action without an index. -/
def noActionIndex : UInt32 := 0xFFFF

def flagWord (flag : Bool) : UInt32 :=
  if flag then 1 else 0

namespace EdgeRecord

/-- The symbol or level stored in an argument. -/
def readSymbol (argument : UInt32) : Except RecordError Int32 :=
  if argument < 0x80000000 then .ok argument.toInt32 else .error (.symbolTooLarge argument)

/-- The symbol stored in an argument, or the end of the input if the flag is set. -/
def readStart (argument flag : UInt32) : Except RecordError Symbol :=
  if flag = 0 then readSymbol argument else .ok endOfInput

def readAction (argument : UInt32) : Option ActionIndex :=
  if argument = noActionIndex then none else some argument

def readSet (table : SetTable) (argument : UInt32) : Except RecordError SymbolSet :=
  match table.get? argument with
  | some set => .ok set
  | none => .error (.noSuchSet argument table.size)

/-- The edge that a record of the given kind stores. -/
def readAs (record : EdgeRecord) (table : SetTable) : EdgeKind → Except RecordError Edge
  | .epsilon => .ok ⟨record.state, .epsilon none⟩
  | .range => do
    let lo ← readStart record.arg1 record.arg3
    let hi ← readSymbol record.arg2
    return ⟨record.state, .range lo hi⟩
  | .rule => do
    let precedence ← readSymbol record.arg3
    return ⟨record.arg1, .call record.arg2 precedence record.state⟩
  | .predicate => .ok ⟨record.state, .predicate ⟨record.arg1, record.arg2, record.arg3 != 0⟩⟩
  | .atom => do
    let label ← readStart record.arg1 record.arg3
    return ⟨record.state, .atom label⟩
  | .action =>
    .ok ⟨record.state, .action record.arg1 (readAction record.arg2) (record.arg3 != 0)⟩
  | .set => do
    let label ← readSet table record.arg1
    return ⟨record.state, .set label⟩
  | .notSet => do
    let excluded ← readSet table record.arg1
    return ⟨record.state, .notSet excluded⟩
  | .wildcard => .ok ⟨record.state, .wildcard⟩
  | .precedence => do
    let level ← readSymbol record.arg1
    return ⟨record.state, .precedence ⟨level⟩⟩

/-- The edge that a record stores. -/
def read (record : EdgeRecord) (table : SetTable) : Except RecordError Edge :=
  match EdgeKind.ofCode? record.kind with
  | some kind => record.readAs table kind
  | none => .error (.unknownKind record.kind)

def writeSymbol (symbol : Int32) : Except RecordError UInt32 :=
  if symbol < 0 then .error (.unstorableSymbol symbol) else .ok symbol.toUInt32

/-- A symbol as an argument and the flag that says whether it is the end of the input. -/
def writeStart (symbol : Symbol) : Except RecordError (UInt32 × UInt32) :=
  if symbol = endOfInput then .ok (0, 1) else (writeSymbol symbol).map fun word => (word, 0)

def writeAction : Option ActionIndex → Except RecordError UInt32
  | none => .ok noActionIndex
  | some index => if noActionIndex ≤ index then .error (.actionTooLarge index) else .ok index

end EdgeRecord

namespace Edge

open EdgeRecord

/-- The record of an edge. The position of its set, if it has one, is asked of `place`, and of
two unstorable symbols of a range the higher end is reported. -/
def write {m : Type → Type} [Monad m] (place : SymbolSet → m UInt32) (edge : Edge) :
    m (Except RecordError EdgeRecord) :=
  let code := edge.kind.code
  match edge.move with
  | .epsilon _ | .wildcard => return .ok ⟨code, edge.target, 0, 0, 0⟩
  | .set label | .notSet label => return .ok ⟨code, edge.target, ← place label, 0, 0⟩
  | .range lo hi => return do
    let last ← writeSymbol hi
    let (first, flag) ← writeStart lo
    return ⟨code, edge.target, first, last, flag⟩
  | .call rule precedence follow => return do
    let level ← writeSymbol precedence
    return ⟨code, follow, edge.target, rule, level⟩
  | .predicate p => return .ok ⟨code, edge.target, p.rule, p.index, flagWord p.inContext⟩
  | .atom label => return do
    let (word, flag) ← writeStart label
    return ⟨code, edge.target, word, 0, flag⟩
  | .action rule index inContext => return do
    let word ← writeAction index
    return ⟨code, edge.target, rule, word, flagWord inContext⟩
  | .precedence check => return do
    let level ← writeSymbol check.level
    return ⟨code, edge.target, level, 0, 0⟩

/-- The records of a list of edges, whose sets are placed in one table. -/
def writeAll (edges : List Edge) : StateM SetTable (List (Except RecordError EdgeRecord)) :=
  edges.mapM (write SetTable.place)

end Edge

end Recognizer
