import Mathlib.Data.List.Forall2
import Recognizer.Edge.Record
import Recognizer.Proofs.Edge.SetTable

/-!
# Reading back what was written

Each argument of a record is read by the inverse of the function that it was written with: a
symbol or level that is not negative leaves the highest bit of its word free, the end of the input
travels in a flag, and an action index stays below the mark for none.  So `read_of_write` gives
back the edge for every kind, but for the rule whose loop an epsilon edge leaves (`Edge.stored`).

A set is read at its position, from a table that has grown since. `read_writeAll` is about a whole
run: the table that it ends with extends every table on the way.
-/

namespace Recognizer

/-! ## Arguments -/

namespace EdgeRecord

theorem ok_of_bind {ε α β : Type} {first : Except ε α} {second : α → Except ε β} {answer : β}
    (ok : (first >>= second) = .ok answer) : ∃ x, first = .ok x ∧ second x = .ok answer := by
  cases first with
  | error fault => cases ok
  | ok x => exact ⟨x, rfl, ok⟩

/-- A symbol that is not negative leaves the highest bit of its word free. -/
theorem toUInt32_lt_of_not_neg {symbol : Int32} (notNegative : ¬ symbol < 0) :
    symbol.toUInt32 < 0x80000000 := by
  have value : 0 ≤ symbol.toBitVec.toInt := by
    have atLeast := Int.not_lt.mp (mt Int32.lt_iff_toInt_lt.mpr notNegative)
    exact atLeast
  rw [BitVec.toInt_eq_toNat_cond] at value
  rw [UInt32.lt_iff_toNat_lt]
  have word : symbol.toUInt32.toNat = symbol.toBitVec.toNat := rfl
  have bound : symbol.toBitVec.toNat < 2 ^ 32 := symbol.toBitVec.isLt
  have mark : (0x80000000 : UInt32).toNat = 2 ^ 31 := rfl
  split at value <;> omega

theorem readSymbol_of_writeSymbol {symbol : Int32} {word : UInt32}
    (written : writeSymbol symbol = .ok word) : readSymbol word = .ok symbol := by
  unfold writeSymbol at written
  split at written
  · cases written
  · rename_i notNegative
    cases written
    rw [readSymbol, if_pos (toUInt32_lt_of_not_neg notNegative)]
    rfl

theorem readStart_of_writeStart {symbol : Symbol} {word flag : UInt32}
    (written : writeStart symbol = .ok (word, flag)) : readStart word flag = .ok symbol := by
  unfold writeStart at written
  split at written
  · rename_i isEnd
    cases written
    rw [isEnd]
    rfl
  · rcases stored : writeSymbol symbol with fault | first
    · rw [stored] at written
      cases written
    · rw [stored] at written
      cases written
      exact readSymbol_of_writeSymbol stored

theorem readAction_of_writeAction {index : Option ActionIndex} {word : UInt32}
    (written : writeAction index = .ok word) : readAction word = index := by
  cases index with
  | none =>
    cases written
    rfl
  | some index =>
    simp only [writeAction] at written
    split at written
    · cases written
    · rename_i below
      cases written
      refine if_neg fun same => below ?_
      rw [same]
      exact UInt32.le_refl _

theorem readSet_of_place {set : SymbolSet} {position : UInt32} {table after final : SetTable}
    (placed : SetTable.place set table = (position, after)) (small : after.size ≤ 4294967296)
    (extension : after.Extends final) : readSet final position = .ok set := by
  rw [readSet, extension.get? (SetTable.get?_of_place placed small)]

theorem flagWord_ne_zero (flag : Bool) : (flagWord flag != 0) = flag := by
  cases flag <;> rfl

end EdgeRecord

theorem EdgeKind.ofCode?_code (kind : EdgeKind) : ofCode? kind.code = some kind := by
  cases kind <;> rfl

namespace Edge

/-- The edge that is left of one that was stored: an edge that leaves a precedence loop no longer
names the rule. -/
def stored (edge : Edge) : Edge :=
  match edge.move with
  | .epsilon _ => ⟨edge.target, .epsilon none⟩
  | _ => edge

open EdgeRecord

variable {edge : Edge} {record : EdgeRecord} {table after final : SetTable}
  {result : Except RecordError EdgeRecord}

/-! ## One edge -/

theorem read_of_readAs (kind : EdgeKind) (isKind : record.kind = kind.code) :
    record.read table = record.readAs table kind := by
  rw [EdgeRecord.read, isKind, EdgeKind.ofCode?_code]

/-- The record of an edge with a set holds the position that the set is given. -/
theorem write_of_place (target : StateId) {move : Move} {set : SymbolSet} {position : UInt32}
    (isSet : move = .set set ∨ move = .notSet set)
    (placed : SetTable.place set table = (position, after)) :
    (write SetTable.place ⟨target, move⟩).run table =
      (.ok ⟨move.kind.code, target, position, 0, 0⟩, after) := by
  have stored : (write SetTable.place ⟨target, move⟩).run table =
      (.ok ⟨move.kind.code, target, (SetTable.place set table).1, 0, 0⟩,
        (SetTable.place set table).2) := by
    rcases isSet with rfl | rfl <;> rfl
  rw [stored, placed]

/-- A record is read back from every table that holds what the edge has left in its own. -/
theorem read_of_write (written : (edge.write SetTable.place).run table = (.ok record, after))
    (small : after.size ≤ 4294967296) (extension : after.Extends final) :
    record.read final = .ok edge.stored := by
  rcases edge with ⟨target, move⟩
  cases move with
  | epsilon outermost =>
    cases written
    rfl
  | wildcard =>
    cases written
    rfl
  | predicate p =>
    cases written
    refine (read_of_readAs .predicate rfl).trans ?_
    simp only [readAs, flagWord_ne_zero]
    rfl
  | range lo hi =>
    obtain ⟨last, writtenHi, rest⟩ := ok_of_bind (congrArg Prod.fst written)
    obtain ⟨⟨first, flag⟩, writtenLo, rest⟩ := ok_of_bind rest
    cases rest
    refine (read_of_readAs .range rfl).trans ?_
    simp only [readAs, readStart_of_writeStart writtenLo, readSymbol_of_writeSymbol writtenHi]
    rfl
  | call rule precedence follow =>
    obtain ⟨level, writtenLevel, rest⟩ := ok_of_bind (congrArg Prod.fst written)
    cases rest
    refine (read_of_readAs .rule rfl).trans ?_
    simp only [readAs, readSymbol_of_writeSymbol writtenLevel]
    rfl
  | atom label =>
    obtain ⟨⟨word, flag⟩, writtenLabel, rest⟩ := ok_of_bind (congrArg Prod.fst written)
    cases rest
    refine (read_of_readAs .atom rfl).trans ?_
    simp only [readAs, readStart_of_writeStart writtenLabel]
    rfl
  | action rule index inContext =>
    obtain ⟨word, writtenIndex, rest⟩ := ok_of_bind (congrArg Prod.fst written)
    cases rest
    refine (read_of_readAs .action rfl).trans ?_
    simp only [readAs, readAction_of_writeAction writtenIndex, flagWord_ne_zero]
    rfl
  | precedence check =>
    obtain ⟨level, writtenLevel, rest⟩ := ok_of_bind (congrArg Prod.fst written)
    cases rest
    refine (read_of_readAs .precedence rfl).trans ?_
    simp only [readAs, readSymbol_of_writeSymbol writtenLevel]
    rfl
  | set label =>
    rcases placed : SetTable.place label table with ⟨position, grown⟩
    cases (write_of_place target (.inl rfl) placed).symm.trans written
    refine (read_of_readAs .set rfl).trans ?_
    simp only [readAs, readSet_of_place placed small extension]
    rfl
  | notSet excluded =>
    rcases placed : SetTable.place excluded table with ⟨position, grown⟩
    cases (write_of_place target (.inr rfl) placed).symm.trans written
    refine (read_of_readAs .notSet rfl).trans ?_
    simp only [readAs, readSet_of_place placed small extension]
    rfl

/-- Writing an edge places its set, if it has one, and cannot fail then. -/
theorem write_cases (written : (edge.write SetTable.place).run table = (result, after)) :
    after = table ∨
      ∃ set position record,
        SetTable.place set table = (position, after) ∧ result = .ok record := by
  rcases edge with ⟨target, move⟩
  cases move with
  | set label | notSet label =>
    cases written
    exact .inr ⟨label, _, _, rfl, rfl⟩
  | _ => exact .inl (congrArg Prod.snd written).symm

theorem write_extends (written : (edge.write SetTable.place).run table = (result, after)) :
    table.Extends after := by
  rcases write_cases written with rfl | ⟨set, position, record, placed, -⟩
  · exact .refl _
  · exact SetTable.place_extends placed

theorem nodup_of_write (written : (edge.write SetTable.place).run table = (result, after))
    (distinct : table.sets.toList.Nodup) : after.sets.toList.Nodup := by
  rcases write_cases written with rfl | ⟨set, position, record, placed, -⟩
  · exact distinct
  · exact SetTable.nodup_of_place placed distinct

/-- An edge that cannot be stored leaves the table as it was. -/
theorem write_of_error {error : RecordError}
    (written : (edge.write SetTable.place).run table = (.error error, after)) : after = table := by
  rcases write_cases written with same | ⟨set, position, record, -, stored⟩
  · exact same
  · cases stored

/-! ## All edges -/

variable {edges : List Edge} {results : List (Except RecordError EdgeRecord)}

theorem writeAll_cons {rest : List (Except RecordError EdgeRecord)}
    (first : (edge.write SetTable.place).run table = (result, after))
    (others : (writeAll edges).run after = (rest, final)) :
    (writeAll (edge :: edges)).run table = (result :: rest, final) := by
  unfold writeAll at others ⊢
  rw [List.mapM_cons, StateT.run_bind, first]
  change (edges.mapM (write SetTable.place) >>= fun rest => pure (result :: rest)).run after = _
  rw [StateT.run_bind, others]
  rfl

theorem writeAll_cons_cases (written : (writeAll (edge :: edges)).run table = (results, final)) :
    ∃ result after rest, (edge.write SetTable.place).run table = (result, after) ∧
      (writeAll edges).run after = (rest, final) ∧ results = result :: rest := by
  rcases first : (edge.write SetTable.place).run table with ⟨result, after⟩
  rcases others : (writeAll edges).run after with ⟨rest, last⟩
  cases (writeAll_cons first others).symm.trans written
  exact ⟨result, after, rest, rfl, others, rfl⟩

theorem writeAll_extends (written : (writeAll edges).run table = (results, final)) :
    table.Extends final ∧ (table.sets.toList.Nodup → final.sets.toList.Nodup) := by
  induction edges generalizing table results with
  | nil =>
    cases written
    exact ⟨.refl _, id⟩
  | cons edge edges ih =>
    obtain ⟨result, after, rest, first, others, rfl⟩ := writeAll_cons_cases written
    obtain ⟨extension, distinct⟩ := ih others
    exact ⟨(write_extends first).trans extension, distinct ∘ nodup_of_write first⟩

/-- Every record of a run reads back from the table that the run ends with. -/
theorem forall_read_of_writeAll (written : (writeAll edges).run table = (results, final))
    (small : final.size ≤ 4294967296) :
    List.Forall₂
      (fun edge result => ∀ record, result = .ok record → record.read final = .ok edge.stored)
      edges results := by
  induction edges generalizing table results with
  | nil =>
    cases written
    exact .nil
  | cons edge edges ih =>
    obtain ⟨result, after, rest, first, others, rfl⟩ := writeAll_cons_cases written
    obtain ⟨extension, -⟩ := writeAll_extends others
    refine .cons ?_ (ih others)
    rintro record rfl
    exact read_of_write first (Nat.le_trans extension.size_le small) extension

/-- Whatever edges are written with one table that is empty at first, each record reads back as its
edge, the table holds no two equal sets, and an edge that cannot be stored leaves it as it was. -/
theorem read_writeAll (written : (writeAll edges).run .empty = (results, final))
    (small : final.size < 4294967296) :
    List.Forall₂
      (fun edge result => ∀ record, result = .ok record → record.read final = .ok edge.stored)
      edges results ∧
    final.sets.toList.Nodup ∧
    ∀ (edge : Edge) (table after : SetTable) (error : RecordError),
      (edge.write SetTable.place).run table = (.error error, after) → after = table := by
  refine ⟨forall_read_of_writeAll written (Nat.le_of_lt small), ?_, fun _ _ _ _ => write_of_error⟩
  exact (writeAll_extends written).2 List.nodup_nil

/-- Two edges share a set, one loses the rule of its loop, and one cannot be stored. -/
theorem read_writeAll_shared :
    (writeAll [⟨1, .set ⟨#[⟨3, 5⟩]⟩⟩, ⟨2, .epsilon (some 7)⟩, ⟨3, .atom (-2)⟩,
        ⟨4, .notSet ⟨#[⟨3, 5⟩]⟩⟩]).run .empty =
      ([.ok ⟨7, 1, 0, 0, 0⟩, .ok ⟨1, 2, 0, 0, 0⟩, .error (.unstorableSymbol (-2)),
        .ok ⟨8, 4, 0, 0, 0⟩], ⟨#[⟨#[⟨3, 5⟩]⟩]⟩) ∧
      EdgeRecord.read ⟨1, 2, 0, 0, 0⟩ ⟨#[⟨#[⟨3, 5⟩]⟩]⟩ = .ok ⟨2, .epsilon none⟩ ∧
      EdgeRecord.read ⟨8, 4, 0, 0, 0⟩ ⟨#[⟨#[⟨3, 5⟩]⟩]⟩ = .ok ⟨4, .notSet ⟨#[⟨3, 5⟩]⟩⟩ := by
  have written : (writeAll [⟨1, .set ⟨#[⟨3, 5⟩]⟩⟩, ⟨2, .epsilon (some 7)⟩, ⟨3, .atom (-2)⟩,
        ⟨4, .notSet ⟨#[⟨3, 5⟩]⟩⟩]).run .empty =
      ([.ok ⟨7, 1, 0, 0, 0⟩, .ok ⟨1, 2, 0, 0, 0⟩, .error (.unstorableSymbol (-2)),
        .ok ⟨8, 4, 0, 0, 0⟩], ⟨#[⟨#[⟨3, 5⟩]⟩]⟩) := by
    have new : SetTable.place ⟨#[⟨3, 5⟩]⟩ .empty = (0, ⟨#[⟨#[⟨3, 5⟩]⟩]⟩) := by cbv
    have old : SetTable.place ⟨#[⟨3, 5⟩]⟩ ⟨#[⟨#[⟨3, 5⟩]⟩]⟩ = (0, ⟨#[⟨#[⟨3, 5⟩]⟩]⟩) := by cbv
    refine writeAll_cons (write_of_place 1 (.inl rfl) new) ?_
    exact writeAll_cons rfl (writeAll_cons rfl
      (writeAll_cons (write_of_place 4 (.inr rfl) old) rfl))
  obtain ⟨reads, -, -⟩ := read_writeAll written (by decide)
  simp only [List.forall₂_cons] at reads
  obtain ⟨-, epsilon, -, notSet, -⟩ := reads
  exact ⟨written, epsilon _ rfl, notSet _ rfl⟩

end Edge

end Recognizer
