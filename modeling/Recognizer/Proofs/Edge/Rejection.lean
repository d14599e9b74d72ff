import Recognizer.Proofs.Edge.WriteBack

/-!
# What is rejected, and why

A record is rejected for one of three faults (`EdgeRecord.Faulty`): no kind has its code, the table
has no set at its position, or an argument that is read as a symbol or level is too large for one.
An edge is rejected if a symbol, a level or an action index of it cannot be stored
(`Move.Unstorable`).  There are no other reasons, every error is about a fault that is there, and
what a kind does not read is no fault whatever it is.

The faults are said of the words and numbers, while the functions that read and write fail one after
the other; `error_of_bind_iff` takes a failure apart.
-/

namespace Recognizer

namespace EdgeRecord

/-! ## Faults of records -/

/-- One of the three arguments of a record. -/
inductive Argument
  | first
  | second
  | third
  deriving DecidableEq, Repr

def argument (record : EdgeRecord) : Argument → UInt32
  | .first => record.arg1
  | .second => record.arg2
  | .third => record.arg3

/-- The arguments that are read from a record of the given kind. A symbol is not read where the
third argument says that it is the end of the input. -/
def readArguments (record : EdgeRecord) : EdgeKind → List Argument
  | .epsilon | .wildcard => []
  | .range => if record.arg3 = 0 then [.first, .second, .third] else [.second, .third]
  | .atom => if record.arg3 = 0 then [.first, .third] else [.third]
  | .rule | .predicate | .action => [.first, .second, .third]
  | .set | .notSet | .precedence => [.first]

/-- Those of them that are read as symbols or levels. -/
def symbolArguments (record : EdgeRecord) : EdgeKind → List Argument
  | .range => if record.arg3 = 0 then [.first, .second] else [.second]
  | .atom => if record.arg3 = 0 then [.first] else []
  | .rule => [.third]
  | .precedence => [.first]
  | .epsilon | .predicate | .action | .set | .notSet | .wildcard => []

/-- The error is about a fault of the record. -/
inductive Faulty (record : EdgeRecord) (table : SetTable) : RecordError → Prop
  | kind (unknown : ¬ (1 ≤ record.kind ∧ record.kind ≤ 10)) :
    Faulty record table (.unknownKind record.kind)
  | set (isSet : record.kind = EdgeKind.set.code ∨ record.kind = EdgeKind.notSet.code)
    (beyond : table.size ≤ record.arg1.toNat) :
    Faulty record table (.noSuchSet record.arg1 table.size)
  | symbol {kind : EdgeKind} (argument : Argument) (isKind : record.kind = kind.code)
    (read : argument ∈ record.symbolArguments kind)
    (large : 2147483647 < (record.argument argument).toNat) :
    Faulty record table (.symbolTooLarge (record.argument argument))

variable {record other : EdgeRecord} {table : SetTable} {kind : EdgeKind} {error : RecordError}

/-! ## Failing computations -/

section Failures

variable {ε α β : Type} {fault : ε} {first : Except ε α} {second : α → Except ε β} {make : α → β}

theorem error_of_bind_iff : (first >>= second) = .error fault ↔
    first = .error fault ∨ ∃ x, first = .ok x ∧ second x = .error fault := by
  cases first with
  | error earlier =>
    change Except.error earlier = Except.error fault ↔ _
    simp
  | ok x =>
    change second x = .error fault ↔ _
    simp

theorem error_of_bind_pure_iff :
    (first >>= fun x => pure (make x)) = .error fault ↔ first = .error fault := by
  rw [error_of_bind_iff]
  refine or_iff_left fun later => ?_
  obtain ⟨x, -, made⟩ := later
  cases made

end Failures

/-! ## Arguments that are read -/

theorem readSymbol_eq_error_iff {argument : UInt32} :
    readSymbol argument = .error error ↔
      2147483647 < argument.toNat ∧ error = .symbolTooLarge argument := by
  have small : argument < 0x80000000 ↔ ¬ 2147483647 < argument.toNat := by
    rw [UInt32.lt_iff_toNat_lt]
    change argument.toNat < 2147483648 ↔ _
    omega
  unfold readSymbol
  split
  · rename_i fits
    simp [small.mp fits]
  · rename_i fitsNot
    simp [not_not.mp (mt small.mpr fitsNot), eq_comm]

theorem readStart_eq_error_iff {argument flag : UInt32} :
    readStart argument flag = .error error ↔
      flag = 0 ∧ 2147483647 < argument.toNat ∧ error = .symbolTooLarge argument := by
  unfold readStart
  split
  · rename_i plain
    rw [readSymbol_eq_error_iff]
    exact (and_iff_right plain).symm
  · rename_i isEnd
    simp [isEnd]

theorem readSet_eq_error_iff {position : UInt32} :
    readSet table position = .error error ↔
      table.size ≤ position.toNat ∧ error = .noSuchSet position table.size := by
  have missing : table.get? position = none ↔ table.size ≤ position.toNat :=
    Array.getElem?_eq_none_iff
  unfold readSet
  rcases found : table.get? position with - | set
  · simp [missing.mp found, eq_comm]
  · have inside : ¬ table.size ≤ position.toNat := by
      rw [← missing, found]
      simp
    simp [inside]

end EdgeRecord

/-- The codes of the kinds are the numbers from 1 to 10. -/
theorem EdgeKind.ofCode?_eq_none_iff {code : UInt32} :
    ofCode? code = none ↔ ¬ (1 ≤ code ∧ code ≤ 10) := by
  constructor
  · intro unknown bounds
    obtain ⟨least, greatest⟩ := bounds
    have known : ∀ n : Fin 11, 1 ≤ n → ofCode? (UInt32.ofNat n) ≠ none := by decide
    have upTo : code.toNat < 11 := Nat.lt_succ_of_le (UInt32.le_iff_toNat_le.mp greatest)
    refine known ⟨code.toNat, upTo⟩ (UInt32.le_iff_toNat_le.mp least) ?_
    rw [UInt32.ofNat_toNat, unknown]
  · intro outside
    rcases known : ofCode? code with - | kind
    · rfl
    · cases eq_code_of_ofCode? known
      refine absurd ?_ outside
      cases kind <;> decide

/-! ## Records -/

namespace EdgeRecord

variable {record other : EdgeRecord} {table : SetTable} {kind : EdgeKind} {error : RecordError}

/-- An error is about a fault of the argument that was read when it occurred. -/
theorem faulty_of_readAs (isKind : record.kind = kind.code)
    (failed : record.readAs table kind = .error error) : record.Faulty table error := by
  cases kind with
  | epsilon | predicate | action | wildcard => cases failed
  | range =>
    rcases error_of_bind_iff.mp failed with atLo | ⟨lo, -, atHi⟩
    · obtain ⟨plain, large, rfl⟩ := readStart_eq_error_iff.mp atLo
      exact .symbol .first isKind (by simp [symbolArguments, plain]) large
    · obtain ⟨large, rfl⟩ := readSymbol_eq_error_iff.mp (error_of_bind_pure_iff.mp atHi)
      refine .symbol .second isKind ?_ large
      by_cases plain : record.arg3 = 0 <;> simp [symbolArguments, plain]
  | atom =>
    obtain ⟨plain, large, rfl⟩ := readStart_eq_error_iff.mp (error_of_bind_pure_iff.mp failed)
    exact .symbol .first isKind (by simp [symbolArguments, plain]) large
  | rule =>
    obtain ⟨large, rfl⟩ := readSymbol_eq_error_iff.mp (error_of_bind_pure_iff.mp failed)
    exact .symbol .third isKind List.mem_cons_self large
  | precedence =>
    obtain ⟨large, rfl⟩ := readSymbol_eq_error_iff.mp (error_of_bind_pure_iff.mp failed)
    exact .symbol .first isKind List.mem_cons_self large
  | set =>
    obtain ⟨beyond, rfl⟩ := readSet_eq_error_iff.mp (error_of_bind_pure_iff.mp failed)
    exact .set (.inl isKind) beyond
  | notSet =>
    obtain ⟨beyond, rfl⟩ := readSet_eq_error_iff.mp (error_of_bind_pure_iff.mp failed)
    exact .set (.inr isKind) beyond

theorem faulty_of_read (failed : record.read table = .error error) :
    record.Faulty table error := by
  rcases known : EdgeKind.ofCode? record.kind with - | kind
  · rw [read, known] at failed
    cases failed
    exact .kind (EdgeKind.ofCode?_eq_none_iff.mp known)
  · have isKind := EdgeKind.eq_code_of_ofCode? known
    rw [Edge.read_of_readAs kind isKind] at failed
    exact faulty_of_readAs isKind failed

/-- A large symbol is not read over, although a fault of the symbol before it may be found first. -/
theorem exists_error_of_large {argument : Argument} (read : argument ∈ record.symbolArguments kind)
    (large : 2147483647 < (record.argument argument).toNat) :
    ∃ error, record.readAs table kind = .error error := by
  cases kind with
  | epsilon | predicate | action | set | notSet | wildcard => cases read
  | range =>
    rcases atLo : readStart record.arg1 record.arg3 with earlier | lo
    · exact ⟨earlier, error_of_bind_iff.mpr (.inl atLo)⟩
    · -- The lower end has been read, so it is not the argument that is too large.
      have isSecond : argument = .second := by
        by_cases plain : record.arg3 = 0
        · rcases List.mem_pair.mp (by simpa [symbolArguments, plain] using read) with rfl | rfl
          · cases atLo.symm.trans (readStart_eq_error_iff.mpr ⟨plain, large, rfl⟩)
          · rfl
        · simpa [symbolArguments, plain] using read
      subst isSecond
      exact ⟨_, error_of_bind_iff.mpr (.inr ⟨lo, atLo,
        error_of_bind_pure_iff.mpr (readSymbol_eq_error_iff.mpr ⟨large, rfl⟩)⟩)⟩
  | atom =>
    by_cases plain : record.arg3 = 0
    · have isFirst : argument = .first := by simpa [symbolArguments, plain] using read
      subst isFirst
      exact ⟨_, error_of_bind_pure_iff.mpr (readStart_eq_error_iff.mpr ⟨plain, large, rfl⟩)⟩
    · simp [symbolArguments, plain] at read
  | rule | precedence =>
    cases List.mem_singleton.mp read
    exact ⟨_, error_of_bind_pure_iff.mpr (readSymbol_eq_error_iff.mpr ⟨large, rfl⟩)⟩

/-- A record with a fault is rejected. -/
theorem Faulty.exists_error (faulty : record.Faulty table error) :
    ∃ error, record.read table = .error error := by
  cases faulty with
  | kind unknown =>
    refine ⟨.unknownKind record.kind, ?_⟩
    rw [read, EdgeKind.ofCode?_eq_none_iff.mpr unknown]
  | set isSet beyond =>
    refine ⟨.noSuchSet record.arg1 table.size, ?_⟩
    rcases isSet with isKind | isKind <;> rw [Edge.read_of_readAs _ isKind] <;>
      exact error_of_bind_pure_iff.mpr (readSet_eq_error_iff.mpr ⟨beyond, rfl⟩)
  | symbol argument isKind read large =>
    rw [Edge.read_of_readAs _ isKind]
    exact exists_error_of_large read large

/-- Two records that agree in what is read are read alike. -/
theorem readAs_congr (state : other.state = record.state)
    (agree : ∀ argument ∈ record.readArguments kind,
      other.argument argument = record.argument argument) :
    other.readAs table kind = record.readAs table kind := by
  have first (read : .first ∈ record.readArguments kind) : other.arg1 = record.arg1 :=
    agree .first read
  have second (read : .second ∈ record.readArguments kind) : other.arg2 = record.arg2 :=
    agree .second read
  have third (read : .third ∈ record.readArguments kind) : other.arg3 = record.arg3 :=
    agree .third read
  cases kind with
  | epsilon | wildcard => simp only [readAs, state]
  | set | notSet | precedence =>
    have here := first List.mem_cons_self
    simp only [readAs, state, here]
  | rule | predicate | action =>
    have here := first (by simp [readArguments])
    have next := second (by simp [readArguments])
    have last := third (by simp [readArguments])
    simp only [readAs, state, here, next, last]
  | range =>
    have flag := third (by by_cases plain : record.arg3 = 0 <;> simp [readArguments, plain])
    have stop := second (by by_cases plain : record.arg3 = 0 <;> simp [readArguments, plain])
    by_cases plain : record.arg3 = 0
    · have start := first (by simp [readArguments, plain])
      simp only [readAs, state, flag, stop, start]
    · simp only [readAs, readStart, state, flag, stop, if_neg plain]
  | atom =>
    have flag := third (by by_cases plain : record.arg3 = 0 <;> simp [readArguments, plain])
    by_cases plain : record.arg3 = 0
    · have start := first (by simp [readArguments, plain])
      simp only [readAs, state, flag, start]
    · simp only [readAs, readStart, state, flag, if_neg plain]

theorem read_congr (sameKind : other.kind = record.kind) (state : other.state = record.state)
    (agree : ∀ kind, record.kind = kind.code → ∀ argument ∈ record.readArguments kind,
      other.argument argument = record.argument argument) :
    other.read table = record.read table := by
  rcases known : EdgeKind.ofCode? record.kind with - | kind
  · rw [read, read, sameKind, known]
  · have isKind := EdgeKind.eq_code_of_ofCode? known
    rw [Edge.read_of_readAs kind isKind, Edge.read_of_readAs kind (sameKind.trans isKind)]
    exact readAs_congr state (agree kind isKind)

end EdgeRecord

/-! ## Edges -/

namespace Move

/-- The error is about a part of the move that cannot be stored. -/
inductive Unstorable : Move → RecordError → Prop
  | range_lo {lo hi : Symbol} (negative : lo < 0) (other : lo ≠ endOfInput) :
    Unstorable (.range lo hi) (.unstorableSymbol lo)
  | range_hi {lo hi : Symbol} (negative : hi < 0) :
    Unstorable (.range lo hi) (.unstorableSymbol hi)
  | atom {label : Symbol} (negative : label < 0) (other : label ≠ endOfInput) :
    Unstorable (.atom label) (.unstorableSymbol label)
  | call {rule : RuleIndex} {level : Int32} {follow : StateId} (negative : level < 0) :
    Unstorable (.call rule level follow) (.unstorableSymbol level)
  | precedence {level : Int32} (negative : level < 0) :
    Unstorable (.precedence ⟨level⟩) (.unstorableSymbol level)
  | action {rule : RuleIndex} {index : ActionIndex} {inContext : Bool} (large : 0xFFFF ≤ index) :
    Unstorable (.action rule (some index) inContext) (.actionTooLarge index)

end Move

namespace EdgeRecord

variable {error : RecordError}

theorem writeSymbol_eq_error_iff {symbol : Int32} :
    writeSymbol symbol = .error error ↔ symbol < 0 ∧ error = .unstorableSymbol symbol := by
  unfold writeSymbol
  split
  · rename_i negative
    simp [negative, eq_comm]
  · rename_i notNegative
    simp [notNegative]

theorem writeStart_eq_error_iff {symbol : Symbol} :
    writeStart symbol = .error error ↔
      symbol < 0 ∧ symbol ≠ endOfInput ∧ error = .unstorableSymbol symbol := by
  have mapped : (writeSymbol symbol).map (fun word => (word, (0 : UInt32))) = .error error ↔
      writeSymbol symbol = .error error := by
    rcases writeSymbol symbol with earlier | word <;> simp [Except.map]
  unfold writeStart
  split
  · rename_i isEnd
    simp [isEnd]
  · rename_i other
    rw [mapped, writeSymbol_eq_error_iff]
    simp [other]

theorem writeAction_eq_error_iff {index : Option ActionIndex} :
    writeAction index = .error error ↔
      ∃ large, index = some large ∧ 0xFFFF ≤ large ∧ error = .actionTooLarge large := by
  cases index with
  | none => simp [writeAction]
  | some index =>
    unfold writeAction
    dsimp only
    split
    · rename_i large
      have atLeast : 0xFFFF ≤ index := large
      simp [atLeast, eq_comm]
    · rename_i fits
      have less : ¬ 0xFFFF ≤ index := fits
      simp [less]

end EdgeRecord

namespace Edge

open EdgeRecord

variable {edge : Edge} {σ : Type} {place : SymbolSet → StateM σ UInt32} {state : σ}
  {error : RecordError}

/-- An error is about the part of the move that was written when it occurred. -/
theorem unstorable_of_write (failed : ((edge.write place).run state).1 = .error error) :
    edge.move.Unstorable error := by
  rcases edge with ⟨target, move⟩
  cases move with
  | epsilon _ | predicate _ | set _ | notSet _ | wildcard => cases failed
  | range lo hi =>
    rcases error_of_bind_iff.mp failed with atHi | ⟨last, -, atLo⟩
    · obtain ⟨negative, rfl⟩ := writeSymbol_eq_error_iff.mp atHi
      exact .range_hi negative
    · obtain ⟨negative, other, rfl⟩ :=
        writeStart_eq_error_iff.mp (error_of_bind_pure_iff.mp atLo)
      exact .range_lo negative other
  | call rule level follow =>
    obtain ⟨negative, rfl⟩ := writeSymbol_eq_error_iff.mp (error_of_bind_pure_iff.mp failed)
    exact .call negative
  | atom label =>
    obtain ⟨negative, other, rfl⟩ :=
      writeStart_eq_error_iff.mp (error_of_bind_pure_iff.mp failed)
    exact .atom negative other
  | action rule index inContext =>
    obtain ⟨large, rfl, tooLarge, rfl⟩ :=
      writeAction_eq_error_iff.mp (error_of_bind_pure_iff.mp failed)
    exact .action tooLarge
  | precedence check =>
    obtain ⟨negative, rfl⟩ := writeSymbol_eq_error_iff.mp (error_of_bind_pure_iff.mp failed)
    exact .precedence negative

/-- An edge with a part that cannot be stored is rejected. -/
theorem exists_error_of_unstorable (unstorable : edge.move.Unstorable error) :
    ∃ error, ((edge.write place).run state).1 = .error error := by
  rcases edge with ⟨target, move⟩
  cases unstorable with
  | @range_lo lo hi negative other =>
    rcases atHi : writeSymbol hi with earlier | last
    · exact ⟨earlier, error_of_bind_iff.mpr (.inl atHi)⟩
    · exact ⟨_, error_of_bind_iff.mpr (.inr ⟨last, atHi,
        error_of_bind_pure_iff.mpr (writeStart_eq_error_iff.mpr ⟨negative, other, rfl⟩)⟩)⟩
  | range_hi negative =>
    exact ⟨_, error_of_bind_iff.mpr (.inl (writeSymbol_eq_error_iff.mpr ⟨negative, rfl⟩))⟩
  | atom negative other =>
    exact ⟨_, error_of_bind_pure_iff.mpr (writeStart_eq_error_iff.mpr ⟨negative, other, rfl⟩)⟩
  | call negative | precedence negative =>
    exact ⟨_, error_of_bind_pure_iff.mpr (writeSymbol_eq_error_iff.mpr ⟨negative, rfl⟩)⟩
  | action large =>
    exact ⟨_, error_of_bind_pure_iff.mpr (writeAction_eq_error_iff.mpr ⟨_, rfl, large, rfl⟩)⟩

/-! ## What is asked of the table -/

/-- The positions that `place` gives, with a list of the sets whose positions were asked for. -/
def recorded (place : SymbolSet → StateM σ UInt32) (set : SymbolSet) :
    StateM (σ × List SymbolSet) UInt32 := fun (state, asked) =>
  let (position, after) := (place set).run state
  (position, after, asked ++ [set])

/-- Writing an edge asks for the position of its set, if it has one, and for no other. -/
theorem write_recorded (edge : Edge) (place : SymbolSet → StateM σ UInt32) (state : σ)
    (asked : List SymbolSet) :
    (edge.write (recorded place)).run (state, asked) =
      (((edge.write place).run state).1, ((edge.write place).run state).2,
        asked ++ edge.placed?.toList) := by
  rcases edge with ⟨target, move⟩
  cases move with
  | set label | notSet label => rfl
  | _ => exact Prod.ext rfl (Prod.ext rfl (List.append_nil asked).symm)

theorem length_placed? (edge : Edge) :
    edge.placed?.toList.length = if edge.kind = .set ∨ edge.kind = .notSet then 1 else 0 := by
  rcases edge with ⟨target, move⟩
  cases move <;> rfl

/-- A record is rejected exactly if it has a fault, and the error is about one that it has. What its
kind does not read makes no difference. An edge is rejected exactly if a part of it cannot be
stored, and the error names such a part, whatever positions are given for sets. The position of a
set is asked for once, and no other position is asked for. -/
theorem rejected_iff_faulty :
    (∀ (record : EdgeRecord) (table : SetTable),
      ((∃ error, record.read table = .error error) ↔ ∃ fault, record.Faulty table fault) ∧
      (∀ error, record.read table = .error error → record.Faulty table error) ∧
      ∀ other : EdgeRecord, other.kind = record.kind → other.state = record.state →
        (∀ kind : EdgeKind, record.kind = kind.code → ∀ argument ∈ record.readArguments kind,
          other.argument argument = record.argument argument) →
        other.read table = record.read table) ∧
    ∀ {σ : Type} (place : SymbolSet → StateM σ UInt32) (edge : Edge) (state : σ),
      ((∃ error, ((edge.write place).run state).1 = .error error) ↔
        ∃ fault, edge.move.Unstorable fault) ∧
      (∀ error, ((edge.write place).run state).1 = .error error → edge.move.Unstorable error) ∧
      ∃ asked, (edge.write (recorded place)).run (state, []) =
          (((edge.write place).run state).1, ((edge.write place).run state).2, asked) ∧
        asked = edge.placed?.toList ∧
        asked.length = if edge.kind = .set ∨ edge.kind = .notSet then 1 else 0 := by
  refine ⟨fun record table => ⟨?_, fun _ => faulty_of_read, fun _ => read_congr⟩, ?_⟩
  · constructor
    · intro rejected
      obtain ⟨error, failed⟩ := rejected
      exact ⟨error, faulty_of_read failed⟩
    · intro faulty
      obtain ⟨fault, isFault⟩ := faulty
      exact isFault.exists_error
  · intro σ place edge state
    refine ⟨⟨?_, ?_⟩, fun _ => unstorable_of_write, _, write_recorded edge place state [],
      List.nil_append _, edge.length_placed?⟩
    · intro rejected
      obtain ⟨error, failed⟩ := rejected
      exact ⟨error, unstorable_of_write failed⟩
    · intro unstorable
      obtain ⟨fault, isFault⟩ := unstorable
      exact exists_error_of_unstorable isFault

/-- A range from the end of the input, whose first argument is not read; a code that is that of a
range in its last eight bits only; and a range with two ends that cannot be stored. -/
theorem rejected_of_range :
    let record : EdgeRecord := ⟨2, 1, 0, 5, 1⟩
    let other : EdgeRecord := ⟨2, 1, 0xFFFFFFFF, 5, 1⟩
    (other.kind = record.kind ∧ other.state = record.state ∧
      (∀ kind : EdgeKind, record.kind = kind.code → ∀ argument ∈ record.readArguments kind,
        other.argument argument = record.argument argument) ∧
      other.read .empty = record.read .empty) ∧
    (∃ error, EdgeRecord.read ⟨258, 1, 0, 5, 1⟩ .empty = .error error) ∧
    ((write SetTable.place ⟨3, .range (-2) (-3)⟩).run .empty).1 =
        .error (.unstorableSymbol (-3)) ∧
      (Move.range (-2) (-3)).Unstorable (.unstorableSymbol (-3)) := by
  intro record other
  obtain ⟨records, edges⟩ := rejected_iff_faulty
  have agree : ∀ kind : EdgeKind, record.kind = kind.code →
      ∀ argument ∈ record.readArguments kind,
        other.argument argument = record.argument argument := by
    intro kind isKind argument listed
    have isRange : some kind = some .range := by
      rw [← EdgeKind.ofCode?_code kind, ← isKind]
      rfl
    cases isRange
    rcases List.mem_pair.mp listed with rfl | rfl <;> rfl
  obtain ⟨-, -, unread⟩ := records record .empty
  obtain ⟨unknown, -, -⟩ := records ⟨258, 1, 0, 5, 1⟩ .empty
  obtain ⟨-, names, -⟩ := edges SetTable.place ⟨3, .range (-2) (-3)⟩ .empty
  exact ⟨⟨rfl, rfl, agree, unread other rfl rfl agree⟩,
    unknown.mpr ⟨_, .kind (by decide)⟩, rfl, names _ rfl⟩

end Edge

end Recognizer
