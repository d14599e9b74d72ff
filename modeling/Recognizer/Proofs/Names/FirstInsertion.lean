import Mathlib.Data.List.Induction
import Mathlib.Data.List.Nodup
import Recognizer.Names.FirstPosition
import Recognizer.Names.Table

/-!
# The order of first insertion

Two tables drop the repetitions of a list of names: `NameTable.ofList` counts the names that it
holds, and `firstPositions` the names of the list.  Both are followed here as one more name is
appended to the list: a new name is appended to both, and one that repeats changes neither.  So both
hold the same names in the same order, that of their first positions in the list.

Only an insertion changes a table, so that every table is that of the list of names which have been
inserted, whatever has been looked up in between.
-/

namespace Recognizer

namespace NameTable

variable {table : NameTable} {names : List String} {name : String} {id : NameId}

/-! ## One table -/

theorem get?_eq (table : NameTable) (name : String) :
    table.get? name = (table.names.toList.idxOf? name).map NameId.mk :=
  congrArg (Option.map NameId.mk) (List.idxOf?_toArray name table.names.toList)

theorem get?_eq_none_iff : table.get? name = none ↔ name ∉ table.names.toList := by
  rw [get?_eq, Option.map_eq_none_iff, List.idxOf?_eq_none_iff]

/-- The handle of a name leads back to it. If no name repeats, it is the only handle that does. -/
theorem get?_eq_some_iff (distinct : table.names.toList.Nodup) :
    table.get? name = some id ↔ table.resolve? id = some name := by
  rcases id with ⟨index⟩
  have getElem (h : index < table.names.toList.length) :
      table.names.toList[index]? = some table.names.toList[index] := List.getElem?_eq_getElem h
  rw [get?_eq, resolve?, ← Array.getElem?_toList, Option.map_eq_some_iff]
  constructor
  · rintro ⟨position, found, same⟩
    cases same
    obtain ⟨inside, here, -⟩ := List.idxOf?_eq_some_iff.mp found
    rw [getElem inside, here]
  · intro resolved
    obtain ⟨inside, here⟩ := List.getElem?_eq_some_iff.mp resolved
    refine ⟨index, List.idxOf?_eq_some_iff.mpr ⟨inside, here, fun earlier before same => ?_⟩, rfl⟩
    exact Nat.ne_of_lt before (distinct.getElem_inj_iff.mp (same.trans here.symm))

theorem resolve?_isSome_iff : (table.resolve? id).isSome ↔ id.index < table.size := by
  rw [resolve?, size, isSome_getElem?]

theorem intern_fst (table : NameTable) (name : String) :
    (table.intern name).1 = (table.get? name).getD ⟨table.size⟩ := by
  unfold intern
  cases table.get? name <;> rfl

/-- A name that is inserted goes to the end unless the table holds it. -/
theorem names_intern (table : NameTable) (name : String) :
    (table.intern name).2.names.toList =
      if name ∈ table.names.toList then table.names.toList else table.names.toList ++ [name] := by
  unfold intern
  rcases found : table.get? name with - | id
  · rw [if_neg (get?_eq_none_iff.mp found)]
    exact Array.toList_push
  · rw [if_pos (by_contra fun missing => by simp [get?_eq_none_iff.mpr missing] at found)]

theorem names_entries (table : NameTable) :
    table.entries.map Prod.snd = table.names.toList := by
  rw [entries, List.map_map]
  exact List.zipIdx_map_fst 0 table.names.toList

theorem ids_entries (table : NameTable) :
    table.entries.map Prod.fst = (List.range table.size).map NameId.mk := by
  rw [entries, List.map_map, List.range_eq_range', size, ← Array.length_toList,
    ← List.zipIdx_map_snd 0 table.names.toList, List.map_map]
  rfl

/-- The handle of an insertion leads to the name that is inserted. -/
theorem resolve?_intern (distinct : table.names.toList.Nodup) (name : String) :
    (table.intern name).2.resolve? (table.intern name).1 = some name := by
  unfold intern
  rcases found : table.get? name with - | id
  · exact Array.getElem?_push_size
  · exact (get?_eq_some_iff distinct).mp found

/-! ## The table of a list -/

theorem ofList_concat (names : List String) (name : String) :
    ofList (names ++ [name]) = ((ofList names).intern name).2 :=
  List.foldl_append ..

theorem mem_names_ofList : name ∈ (ofList names).names.toList ↔ name ∈ names := by
  induction names using List.reverseRecOn with
  | nil => rfl
  | append_singleton names last ih =>
    rw [ofList_concat, names_intern, List.mem_append, ← ih, List.mem_singleton]
    split
    next present => exact ⟨.inl, fun either => either.elim id fun same => same ▸ present⟩
    next => rw [List.mem_append, List.mem_singleton]

theorem names_ofList_concat (names : List String) (name : String) :
    (ofList (names ++ [name])).names.toList =
      if name ∈ names then (ofList names).names.toList
      else (ofList names).names.toList ++ [name] := by
  simp only [ofList_concat, names_intern, mem_names_ofList]

/-- The names of a table stay in place when more names are inserted. -/
theorem names_ofList_append (names later : List String) :
    (ofList names).names.toList <+: (ofList (names ++ later)).names.toList := by
  induction later using List.reverseRecOn with
  | nil => simp only [List.append_nil, List.prefix_rfl]
  | append_singleton later last ih =>
    rw [← List.append_assoc, names_ofList_concat]
    split
    · exact ih
    · exact ih.trans (List.prefix_append _ _)

/-- The names of a table are in the order of their first positions in the list. -/
theorem pairwise_names_ofList (names : List String) :
    (ofList names).names.toList.Pairwise fun first second =>
      names.idxOf first < names.idxOf second := by
  induction names using List.reverseRecOn with
  | nil => exact .nil
  | append_singleton names last ih =>
    -- The first positions of the names that are held do not depend on what is appended.
    have kept : (ofList names).names.toList.Pairwise fun first second =>
        (names ++ [last]).idxOf first < (names ++ [last]).idxOf second := by
      refine ih.imp_of_mem fun first second before => ?_
      rwa [List.idxOf_append_of_mem (mem_names_ofList.mp first),
        List.idxOf_append_of_mem (mem_names_ofList.mp second)]
    rw [names_ofList_concat]
    split
    next => exact kept
    next isNew =>
      refine List.pairwise_append.mpr ⟨kept, List.pairwise_singleton _ _, fun first old => ?_⟩
      refine List.forall_mem_singleton.mpr ?_
      have old := mem_names_ofList.mp old
      rw [List.idxOf_append_of_mem old, List.idxOf_append_of_notMem isNew]
      exact Nat.lt_add_right _ (List.idxOf_lt_length_iff.mpr old)

theorem nodup_names_ofList (names : List String) : (ofList names).names.toList.Nodup :=
  (pairwise_names_ofList names).imp fun before same => by simp [same] at before

theorem isSome_get?_ofList : ((ofList names).get? name).isSome ↔ name ∈ names := by
  rw [← Option.ne_none_iff_isSome, ne_eq, get?_eq_none_iff, not_not, mem_names_ofList]

/-- A name keeps its handle when more names are inserted. -/
theorem get?_ofList_append {later : List String} (found : (ofList names).get? name = some id) :
    (ofList (names ++ later)).get? name = some id := by
  have resolved := (get?_eq_some_iff (nodup_names_ofList names)).mp found
  refine (get?_eq_some_iff (nodup_names_ofList _)).mpr ?_
  rw [resolve?, ← Array.getElem?_toList] at resolved ⊢
  obtain ⟨added, same⟩ := names_ofList_append names later
  obtain ⟨inside, -⟩ := List.getElem?_eq_some_iff.mp resolved
  rw [← same, List.getElem?_append_left inside, resolved]

/-- The handles are ordered as the first positions of their names. -/
theorem lt_iff_idxOf_lt {first second : NameId} {name other : String}
    (resolved : (ofList names).resolve? first = some name)
    (resolvedOther : (ofList names).resolve? second = some other) :
    first < second ↔ names.idxOf name < names.idxOf other := by
  have ordered := List.pairwise_iff_getElem.mp (pairwise_names_ofList names)
  obtain ⟨inside, here⟩ := Array.getElem?_eq_some_iff.mp resolved
  obtain ⟨insideOther, there⟩ := Array.getElem?_eq_some_iff.mp resolvedOther
  have increasing {i j : Nat} (hi : i < (ofList names).names.size)
      (hj : j < (ofList names).names.size) (before : i < j) :
      names.idxOf (ofList names).names[i] < names.idxOf (ofList names).names[j] :=
    ordered i j hi hj before
  subst here there
  change first.index < second.index ↔ _
  rcases Nat.lt_trichotomy first.index second.index with before | same | after
  · exact iff_of_true before (increasing inside insideOther before)
  · simp [same]
  · have := increasing insideOther inside after
    omega

end NameTable

/-! ## First positions -/

variable {keys : List String} {key : String}

theorem firstPositions_concat (keys : List String) (key : String) :
    firstPositions (keys ++ [key]) = insertFirst (firstPositions keys) key keys.length := by
  simp [firstPositions, List.zipIdx_append]

theorem lookup_insertFirst (found : List (String × Nat)) (key : String) (position : Nat)
    (other : String) :
    (insertFirst found key position).lookup other =
      (found.lookup other).or (if key == other then some position else none) := by
  unfold insertFirst
  split
  next present =>
    split
    next same =>
      obtain ⟨first, found⟩ := Option.isSome_iff_exists.mp present
      rw [← LawfulBEq.eq_of_beq same, found]
      rfl
    next => rw [Option.or_none]
  next =>
    rw [List.lookup_append, List.lookup_cons, List.lookup_nil, BEq.comm]
    cases key == other <;> rfl

/-- A key is found with its first position, and not at all if it is not in the list. -/
theorem lookup_firstPositions : (firstPositions keys).lookup key = keys.idxOf? key := by
  induction keys using List.reverseRecOn with
  | nil => rfl
  | append_singleton keys last ih =>
    rw [firstPositions_concat, lookup_insertFirst, ih]
    refine Eq.trans ?_ List.findIdx?_append.symm
    rw [List.findIdx?_singleton]
    cases last == key <;> simp [List.idxOf?]

theorem lookup_firstPositions_eq_some_iff {position : Nat} :
    (firstPositions keys).lookup key = some position ↔
      keys[position]? = some key ∧ ∀ earlier < position, keys[earlier]? ≠ some key := by
  rw [lookup_firstPositions, List.idxOf?_eq_some_iff]
  constructor
  · rintro ⟨inside, here, first⟩
    refine ⟨List.getElem?_eq_some_iff.mpr ⟨inside, here⟩, fun earlier before found => ?_⟩
    exact first earlier before (List.getElem?_eq_some_iff.mp found).2
  · rintro ⟨found, first⟩
    obtain ⟨inside, here⟩ := List.getElem?_eq_some_iff.mp found
    refine ⟨inside, here, fun earlier before same => first earlier before ?_⟩
    exact List.getElem?_eq_some_iff.mpr ⟨Nat.lt_trans before inside, same⟩

/-- The keys that the positions are listed for are the names of the table. -/
theorem keys_firstPositions (keys : List String) :
    (firstPositions keys).map Prod.fst = (NameTable.ofList keys).names.toList := by
  induction keys using List.reverseRecOn with
  | nil => rfl
  | append_singleton keys last ih =>
    rw [firstPositions_concat, NameTable.names_ofList_concat]
    simp only [insertFirst, lookup_firstPositions, List.isSome_idxOf?]
    split
    · exact ih
    · rw [List.map_append, ih, List.map_singleton]

/-! ## Both tables -/

namespace NameTable

/-- What has been inserted into a table is found by its handle, and the handle by the name. The
handles in use are those below the size, and they are in the order in which the names were first
inserted. A name that is inserted again keeps its handle, a new one gets the next, and no handle
changes later. The names of the table are the keys of `firstPositions`, in the same order, and each
key has the position at which the list holds it first. -/
theorem handles_in_insertion_order (names : List String) :
    (∀ name id, (ofList names).get? name = some id ↔ (ofList names).resolve? id = some name) ∧
      (∀ id, ((ofList names).resolve? id).isSome ↔ id.index < (ofList names).size) ∧
      (∀ name, ((ofList names).get? name).isSome ↔ name ∈ names) ∧
      (∀ first second name other, (ofList names).resolve? first = some name →
        (ofList names).resolve? second = some other →
          (first < second ↔ names.idxOf name < names.idxOf other)) ∧
      (∀ name, (ofList names).intern name =
        (((ofList names).get? name).getD ⟨(ofList names).size⟩, ofList (names ++ [name]))) ∧
      (∀ name, (ofList (names ++ [name])).get? name = some ((ofList names).intern name).1) ∧
      (∀ later name id, (ofList names).get? name = some id →
        (ofList (names ++ later)).get? name = some id) ∧
      (ofList names).entries.map Prod.fst = (List.range (ofList names).size).map NameId.mk ∧
      (ofList names).entries.map Prod.snd = (firstPositions names).map Prod.fst ∧
      ((firstPositions names).map Prod.fst).Nodup ∧
      ∀ key position, (firstPositions names).lookup key = some position ↔
        names[position]? = some key ∧ ∀ earlier < position, names[earlier]? ≠ some key := by
  refine ⟨fun name id => get?_eq_some_iff (nodup_names_ofList names), fun id => resolve?_isSome_iff,
    fun name => isSome_get?_ofList, fun first second name other => lt_iff_idxOf_lt, fun name => ?_,
    fun name => ?_, fun later name id => get?_ofList_append, ids_entries _, ?_, ?_,
    fun key position => lookup_firstPositions_eq_some_iff⟩
  · rw [ofList_concat, ← intern_fst]
  · refine (get?_eq_some_iff (nodup_names_ofList _)).mpr ?_
    rw [ofList_concat, resolve?_intern (nodup_names_ofList names)]
  · rw [names_entries, keys_firstPositions]
  · rw [keys_firstPositions]
    exact nodup_names_ofList names

/-- The second `"a"` gets no handle, so that of `"c"` is not its position. It stays when more names
are inserted. -/
theorem handles_of_repeatedName :
    (ofList ["a", "b", "a", "c"]).get? "c" = some ⟨2⟩ ∧
      (ofList ["a", "b", "a", "c", "b", "d"]).get? "c" = some ⟨2⟩ ∧
      (firstPositions ["a", "b", "a", "c"]).lookup "c" = some 3 := by
  have found : (ofList ["a", "b", "a", "c"]).get? "c" = some ⟨2⟩ := by decide +kernel
  obtain ⟨-, -, -, -, -, -, stable, -, -, -, first⟩ :=
    handles_in_insertion_order ["a", "b", "a", "c"]
  exact ⟨found, stable ["b", "d"] "c" ⟨2⟩ found, (first "c" 3).mpr (by decide +kernel)⟩

end NameTable

end Recognizer
