import Recognizer.Edge.SetTable

/-!
# Placing sets in a table

A table only grows while sets are placed in it, and it grows only by a set that it lacks. So it
never holds two equal sets, and the position that a set was given stays right whatever is placed
later.
-/

namespace Recognizer.SetTable

variable {table after final : SetTable} {set : SymbolSet} {position : UInt32}

/-- A table holds the sets of another one at the same positions. -/
def Extends (table after : SetTable) : Prop :=
  table.sets.toList <+: after.sets.toList

theorem Extends.refl (table : SetTable) : table.Extends table :=
  List.prefix_refl _

theorem Extends.trans (extension : table.Extends after) (extensionToo : after.Extends final) :
    table.Extends final :=
  List.IsPrefix.trans extension extensionToo

theorem Extends.size_le (extension : table.Extends after) : table.size ≤ after.size := by
  simpa [size] using List.IsPrefix.length_le extension

theorem Extends.get? (extension : table.Extends after) (found : table.get? position = some set) :
    after.get? position = some set := by
  obtain ⟨more, appended⟩ := extension
  unfold SetTable.get? at found ⊢
  rw [← Array.getElem?_toList] at found ⊢
  obtain ⟨inside, -⟩ := List.getElem?_eq_some_iff.mp found
  rw [← appended, List.getElem?_append_left inside]
  exact found

/-- A set is at a position already, or the table lacks it and it goes to the end. -/
theorem place_cases (set : SymbolSet) (table : SetTable) :
    (∃ index, table.sets[index]? = some set ∧ place set table = (UInt32.ofNat index, table)) ∨
      (set ∉ table.sets ∧
        place set table = (UInt32.ofNat table.size, ⟨table.sets.push set⟩)) := by
  unfold place
  rcases found : table.sets.idxOf? set with - | index
  · exact .inr ⟨Array.idxOf?_eq_none_iff.mp found, rfl⟩
  · rw [Array.idxOf?_eq_map_finIdxOf?_val] at found
    obtain ⟨here, first, rfl⟩ := Option.map_eq_some_iff.mp found
    obtain ⟨same, -⟩ := Array.finIdxOf?_eq_some_iff.mp first
    exact .inl ⟨here, Array.getElem?_eq_some_iff.mpr ⟨here.isLt, same⟩, rfl⟩

theorem place_extends (placed : place set table = (position, after)) : table.Extends after := by
  rcases place_cases set table with ⟨index, -, here⟩ | ⟨-, pushed⟩
  · cases here.symm.trans placed
    exact .refl table
  · cases pushed.symm.trans placed
    exact ⟨[set], by simp⟩

/-- The position of a set is right unless the table has outgrown the positions. -/
theorem get?_of_place (placed : place set table = (position, after))
    (small : after.size ≤ 4294967296) : after.get? position = some set := by
  unfold get?
  rcases place_cases set table with ⟨index, found, here⟩ | ⟨-, pushed⟩
  · cases here.symm.trans placed
    obtain ⟨inside, -⟩ := Array.getElem?_eq_some_iff.mp found
    have fits : index < 4294967296 := Nat.lt_of_lt_of_le inside small
    rw [UInt32.toNat_ofNat_of_lt' fits]
    exact found
  · cases pushed.symm.trans placed
    have fits : table.size < 4294967296 := by simp [size] at small ⊢; omega
    rw [UInt32.toNat_ofNat_of_lt' fits]
    exact Array.getElem?_push_size

theorem nodup_of_place (placed : place set table = (position, after))
    (distinct : table.sets.toList.Nodup) : after.sets.toList.Nodup := by
  rcases place_cases set table with ⟨index, -, here⟩ | ⟨lacking, pushed⟩
  · cases here.symm.trans placed
    exact distinct
  · cases pushed.symm.trans placed
    rw [Array.toList_push, List.nodup_append]
    refine ⟨distinct, by simp, ?_⟩
    intro x listed y new same
    rw [List.mem_singleton.mp new] at same
    exact lacking (Array.mem_toList_iff.mp (same ▸ listed))

end Recognizer.SetTable
