import Recognizer.Proofs.Edge.RoundTrip

/-!
# Writing back what was read

A record may say more than the edge that is read from it.  `EdgeRecord.normal` is the record without
that surplus: arguments that its kind does not read are zero, and flags are zero or one.  Reading
does not tell the two apart (`read_normal`).

`write_of_read` says that an edge that was read is written as the normal record.  A set may be given
another position than it was read from, if the table holds it several times, and an action index
above the mark for none is read although it cannot be stored.
-/

namespace Recognizer

namespace EdgeRecord

/-! ## Normal records -/

/-- The record, taken to be of the given kind, with unread arguments zero and flags zero or one. A
symbol is not read where a flag says that it is the end of the input. -/
def normalAs (record : EdgeRecord) : EdgeKind → EdgeRecord
  | .epsilon | .wildcard => { record with arg1 := 0, arg2 := 0, arg3 := 0 }
  | .set | .notSet | .precedence => { record with arg2 := 0, arg3 := 0 }
  | .rule => record
  | .predicate | .action => { record with arg3 := flagWord (record.arg3 != 0) }
  | .range => if record.arg3 = 0 then record else { record with arg1 := 0, arg3 := 1 }
  | .atom =>
    if record.arg3 = 0 then { record with arg2 := 0 }
    else { record with arg1 := 0, arg2 := 0, arg3 := 1 }

/-- The record with unread arguments zero and flags zero or one. -/
def normal (record : EdgeRecord) : EdgeRecord :=
  match EdgeKind.ofCode? record.kind with
  | some kind => record.normalAs kind
  | none => record

/-- The record with another position of its set, if there is one. -/
def withSet (record : EdgeRecord) (position : Option UInt32) : EdgeRecord :=
  { record with arg1 := position.getD record.arg1 }

variable {record : EdgeRecord} {table : SetTable} {edge : Edge}

theorem kind_normalAs (kind : EdgeKind) : (record.normalAs kind).kind = record.kind := by
  cases kind with
  | range | atom =>
    unfold normalAs
    dsimp only
    split <;> rfl
  | _ => rfl

theorem normal_eq {kind : EdgeKind} (isKind : EdgeKind.ofCode? record.kind = some kind) :
    record.normal = record.normalAs kind := by
  rw [normal, isKind]

theorem readAs_normalAs (kind : EdgeKind) :
    (record.normalAs kind).readAs table kind = record.readAs table kind := by
  cases kind with
  | predicate | action =>
    simp only [normalAs, readAs, flagWord_ne_zero]
  | range | atom =>
    by_cases plain : record.arg3 = 0
    · simp only [normalAs, if_pos plain, readAs]
    · simp only [normalAs, readAs, readStart, if_neg plain]
      rfl
  | _ => rfl

/-- Reading looks at nothing but what the normal record keeps. -/
theorem read_normal : record.normal.read table = record.read table := by
  rcases isKind : EdgeKind.ofCode? record.kind with - | kind
  · rw [normal, isKind]
  · rw [normal_eq isKind, read, read, kind_normalAs, isKind]
    exact readAs_normalAs kind

/-! ## Arguments -/

theorem bind_ok {ε α β : Type} {first : Except ε α} {second : α → Except ε β} {x : α}
    (ok : first = .ok x) : (first >>= second) = second x := by
  rw [ok]
  rfl

theorem writeSymbol_of_readSymbol {argument : UInt32} {symbol : Int32}
    (found : readSymbol argument = .ok symbol) : writeSymbol symbol = .ok argument := by
  unfold readSymbol at found
  split at found
  · rename_i small
    cases found
    have value : argument.toInt32.toInt = argument.toNat := by
      have below : 2 * argument.toBitVec.toNat < 2 ^ 32 := by
        have small := UInt32.lt_iff_toNat_lt.mp small
        have word : argument.toNat = argument.toBitVec.toNat := rfl
        have mark : (0x80000000 : UInt32).toNat = 2 ^ 31 := rfl
        omega
      exact BitVec.toInt_eq_toNat_of_lt below
    have notNegative : ¬ argument.toInt32 < 0 := by
      rw [Int32.lt_iff_toInt_lt, value]
      exact Int.not_lt.mpr (Int.natCast_nonneg _)
    exact if_neg notNegative
  · cases found

theorem writeStart_of_readStart {argument flag : UInt32} {symbol : Symbol}
    (found : readStart argument flag = .ok symbol) :
    writeStart symbol = .ok (if flag = 0 then (argument, 0) else (0, 1)) := by
  unfold readStart at found
  split at found
  · rename_i plain
    have stored := writeSymbol_of_readSymbol found
    have other : symbol ≠ endOfInput := by
      rintro rfl
      cases stored
    rw [writeStart, if_neg other, stored, if_pos plain]
    rfl
  · rename_i isEnd
    cases found
    rw [if_neg isEnd]
    rfl

theorem writeAction_readAction {argument : UInt32} (inRange : argument ≤ noActionIndex) :
    writeAction (readAction argument) = .ok argument := by
  unfold readAction
  split
  · rename_i none
    rw [none]
    rfl
  · rename_i other
    exact if_neg fun above => other (UInt32.le_antisymm inRange above)

theorem readSet_eq_ok_iff {argument : UInt32} {set : SymbolSet} :
    readSet table argument = .ok set ↔ table.get? argument = some set := by
  unfold readSet
  rcases table.get? argument with - | found <;> simp

end EdgeRecord

theorem EdgeKind.eq_code_of_ofCode? {code : UInt32} {kind : EdgeKind}
    (known : ofCode? code = some kind) : code = kind.code := by
  have same := List.find?_some known
  exact (beq_iff_eq.mp same).symm

namespace Edge

open EdgeRecord

variable {record : EdgeRecord} {table : SetTable} {edge : Edge} {σ : Type}
  {place : SymbolSet → StateM σ UInt32}

/-- The set whose position an edge is stored with. -/
def placed? (edge : Edge) : Option SymbolSet :=
  match edge.move with
  | .set label => some label
  | .notSet excluded => some excluded
  | _ => none

/-- The positions that are given for the sets of a table are right, whatever was asked before. -/
def Locates (place : SymbolSet → StateM σ UInt32) (table : SetTable) : Prop :=
  ∀ set ∈ table.sets, ∀ state, table.get? ((place set).run state).1 = some set

theorem write_of_readAs (kind : EdgeKind) (found : record.readAs table kind = .ok edge)
    (isKind : record.kind = kind.code)
    (storable : record.kind = EdgeKind.action.code → record.arg2 ≤ noActionIndex) (state : σ) :
    ((edge.write place).run state).1 = .ok ((record.normalAs kind).withSet
      (edge.placed?.map fun set => ((place set).run state).1)) := by
  rcases record with ⟨code, target, arg1, arg2, arg3⟩
  cases isKind
  cases kind with
  | epsilon | wildcard | predicate =>
    cases found
    rfl
  | range =>
    obtain ⟨lo, readLo, found⟩ := ok_of_bind found
    obtain ⟨hi, readHi, found⟩ := ok_of_bind found
    cases found
    refine (bind_ok (writeSymbol_of_readSymbol readHi)).trans ?_
    refine (bind_ok (writeStart_of_readStart readLo)).trans ?_
    by_cases plain : arg3 = 0
    · simp only [normalAs, if_pos plain]
      cases plain
      rfl
    · simp only [normalAs, if_neg plain]
      rfl
  | rule =>
    obtain ⟨precedence, readLevel, found⟩ := ok_of_bind found
    cases found
    exact bind_ok (writeSymbol_of_readSymbol readLevel)
  | atom =>
    obtain ⟨label, readLabel, found⟩ := ok_of_bind found
    cases found
    refine (bind_ok (writeStart_of_readStart readLabel)).trans ?_
    by_cases plain : arg3 = 0
    · simp only [normalAs, if_pos plain]
      cases plain
      rfl
    · simp only [normalAs, if_neg plain]
      rfl
  | action =>
    cases found
    exact bind_ok (writeAction_readAction (storable rfl))
  | set | notSet =>
    obtain ⟨label, -, found⟩ := ok_of_bind found
    cases found
    rfl
  | precedence =>
    obtain ⟨level, readLevel, found⟩ := ok_of_bind found
    cases found
    exact bind_ok (writeSymbol_of_readSymbol readLevel)

/-- The set of an edge that was read is in the table, and the edge is read from any position that
the set has there. -/
theorem read_withSet {kind : EdgeKind} (isKind : record.kind = kind.code)
    (found : record.readAs table kind = .ok edge) {set : SymbolSet}
    (placed : edge.placed? = some set) :
    table.get? record.arg1 = some set ∧ ∀ position, table.get? position = some set →
      (record.withSet (some position)).read table = .ok edge := by
  cases kind with
  | set | notSet =>
    obtain ⟨label, readLabel, made⟩ := ok_of_bind found
    cases made
    cases placed
    refine ⟨readSet_eq_ok_iff.mp readLabel, fun position here => ?_⟩
    have isKindToo : (record.withSet (some position)).kind = _ := isKind
    rw [read_of_readAs _ isKindToo]
    exact bind_ok (readSet_eq_ok_iff.mpr here)
  | range =>
    obtain ⟨lo, -, found⟩ := ok_of_bind found
    obtain ⟨hi, -, found⟩ := ok_of_bind found
    cases found
    cases placed
  | rule | atom | precedence =>
    obtain ⟨symbol, -, found⟩ := ok_of_bind found
    cases found
    cases placed
  | epsilon | wildcard | predicate | action =>
    cases found
    cases placed

theorem SetTable.eq_of_get? {first second : UInt32} {set : SymbolSet}
    (distinct : table.sets.toList.Nodup) (here : table.get? first = some set)
    (there : table.get? second = some set) : first = second := by
  unfold SetTable.get? at here there
  rw [← Array.getElem?_toList] at here there
  obtain ⟨inside, -⟩ := List.getElem?_eq_some_iff.mp here
  exact UInt32.toNat_inj.mp ((List.getElem?_inj inside distinct).mp (here.trans there.symm))

/-- An edge that was read is stored as the record that it was read from, with unread arguments zero
and flags zero or one, and with the position that is given for its set, unless it is an action
whose index is above the mark for none.  The edge is read from its new record again.  The position
of the set is the old one if the table does not hold it twice. -/
theorem write_of_read (readable : record.read table = .ok edge)
    (locates : Locates place table)
    (storable : record.kind = EdgeKind.action.code → record.arg2 ≤ noActionIndex) (state : σ) :
    ∃ written after, (edge.write place).run state = (.ok written, after) ∧
      written = record.normal.withSet (edge.placed?.map fun set => ((place set).run state).1) ∧
      written.read table = .ok edge ∧
      (table.sets.toList.Nodup → written = record.normal) := by
  rcases known : EdgeKind.ofCode? record.kind with - | kind
  · rw [EdgeRecord.read, known] at readable
    cases readable
  · have isKind := EdgeKind.eq_code_of_ofCode? known
    rw [read_of_readAs kind isKind] at readable
    have stored : ((edge.write place).run state).1 = _ :=
      write_of_readAs kind readable isKind storable state
    have normalKind : record.normal.kind = kind.code := by
      rw [normal_eq known, kind_normalAs, isKind]
    have normalRead : record.normal.readAs table kind = .ok edge := by
      rw [normal_eq known, readAs_normalAs, readable]
    rw [← normal_eq known] at stored
    refine ⟨_, _, Prod.ext stored rfl, rfl, ?_⟩
    rcases placed : edge.placed? with - | set
    · exact ⟨(read_of_readAs kind normalKind).trans normalRead, fun _ => rfl⟩
    · obtain ⟨here, readsFrom⟩ := read_withSet normalKind normalRead placed
      have there := locates set (Array.mem_of_getElem? here) state
      refine ⟨readsFrom _ there, fun distinct => ?_⟩
      have same := SetTable.eq_of_get? distinct here there
      exact congrArg (fun position => record.normal.withSet (some position)) same.symm

/-- A table that holds a set twice. -/
def repeatedSet : SetTable :=
  ⟨#[⟨#[⟨1, 3⟩]⟩, ⟨#[⟨1, 3⟩]⟩]⟩

/-- The first position, with a count of how often it was asked for. -/
def firstPosition (_ : SymbolSet) : StateM Nat UInt32 := fun asked =>
  (0, asked + 1)

theorem locates_firstPosition : Locates firstPosition repeatedSet := by
  intro set listed state
  have same : set = ⟨#[⟨1, 3⟩]⟩ := by simpa [repeatedSet] using listed
  rw [same]
  rfl

theorem write_of_repeatedSet :
    EdgeRecord.read ⟨8, 1, 1, 9, 9⟩ repeatedSet = .ok ⟨1, .notSet ⟨#[⟨1, 3⟩]⟩⟩ ∧
      ∃ after, (write firstPosition ⟨1, .notSet ⟨#[⟨1, 3⟩]⟩⟩).run 0 = (.ok ⟨8, 1, 0, 0, 0⟩, after) ∧
        EdgeRecord.read ⟨8, 1, 0, 0, 0⟩ repeatedSet = .ok ⟨1, .notSet ⟨#[⟨1, 3⟩]⟩⟩ := by
  have readable : EdgeRecord.read ⟨8, 1, 1, 9, 9⟩ repeatedSet =
      .ok ⟨1, .notSet ⟨#[⟨1, 3⟩]⟩⟩ := rfl
  obtain ⟨written, after, done, rfl, again, -⟩ :=
    write_of_read readable locates_firstPosition (by decide) 0
  exact ⟨readable, after, done, again⟩

/-- A set that the table holds twice can be given its other position, and an action index above the
mark for none is read but not stored. -/
theorem not_written_back :
    (EdgeRecord.read ⟨8, 1, 1, 0, 0⟩ repeatedSet = .ok ⟨1, .notSet ⟨#[⟨1, 3⟩]⟩⟩ ∧
      EdgeRecord.normal ⟨8, 1, 1, 0, 0⟩ = ⟨8, 1, 1, 0, 0⟩ ∧ Locates firstPosition repeatedSet ∧
      (write firstPosition ⟨1, .notSet ⟨#[⟨1, 3⟩]⟩⟩).run 0 = (.ok ⟨8, 1, 0, 0, 0⟩, 1)) ∧
    EdgeRecord.read ⟨6, 1, 0, 0x10000, 0⟩ repeatedSet = .ok ⟨1, .action 0 (some 0x10000) false⟩ ∧
      (write firstPosition ⟨1, .action 0 (some 0x10000) false⟩).run 0 =
        (.error (.actionTooLarge 0x10000), 0) :=
  ⟨⟨rfl, rfl, locates_firstPosition, rfl⟩, rfl, rfl⟩

end Edge

end Recognizer
