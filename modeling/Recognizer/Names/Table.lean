/-!
# Name tables

A `NameTable` holds names without repetition, in the order of their first insertion. A name is
handed out as a `NameId`, its position in that order, which later insertions never change.
-/

namespace Recognizer

/-- A handle to a name of a table: the position of the name. -/
structure NameId where
  index : Nat
  deriving DecidableEq, Repr, Ord

instance : LT NameId := ⟨fun a b => a.index < b.index⟩

instance (a b : NameId) : Decidable (a < b) := inferInstanceAs (Decidable (a.index < b.index))

/-- Names in the order of their first insertion. -/
structure NameTable where
  names : Array String
  deriving DecidableEq, Repr, Inhabited

namespace NameTable

/-- The table without names. -/
def empty : NameTable := ⟨#[]⟩

def size (table : NameTable) : Nat :=
  table.names.size

def get? (table : NameTable) (name : String) : Option NameId :=
  (table.names.idxOf? name).map NameId.mk

/-- The name behind a handle. A handle that the table never gave out has none. -/
def resolve? (table : NameTable) (id : NameId) : Option String :=
  table.names[id.index]?

/-- The handle of a name and the table that holds it: a new name goes to the end. -/
def intern (table : NameTable) (name : String) : NameId × NameTable :=
  match table.get? name with
  | some id => (id, table)
  | none => (⟨table.size⟩, ⟨table.names.push name⟩)

/-- The table of the names of a list, inserted in order. -/
def ofList (names : List String) : NameTable :=
  names.foldl (fun table name => (table.intern name).2) empty

/-- The names with their handles, in order. -/
def entries (table : NameTable) : List (NameId × String) :=
  table.names.toList.zipIdx.map fun (name, index) => (⟨index⟩, name)

end NameTable

end Recognizer
