import Mathlib.Data.List.Nodup
import Recognizer.Condition.Json
import Recognizer.Interval.Json
import Recognizer.Token.Json

/-!
# Reading back what was written

What is written as JSON is read back unchanged.  A token is also read from the array of its fields
and from objects that do not look as it is written: `ofJson?_obj` holds for the fields of the token
in any order and among others, and zero positions may be missing.

A field is read by its name alone.  So what counts of the fields of an object is which values go
with a name (`lookup_eq_some_iff_mem`), and neither the order nor the other names do
(`lookup_of_perm`).
-/

namespace Recognizer

open Json (Value)

/-! ## Scalars -/

namespace Json.Value

@[simp]
theorem int32?_ofInt32 (n : Int32) : (ofInt32 n).int32? = some n := by
  rw [ofInt32, int32?, if_pos ⟨n.minValue_le_toInt, n.toInt_le⟩, Int32.ofInt_toInt]

@[simp]
theorem uint32?_ofUInt32 (n : UInt32) : (ofUInt32 n).uint32? = some n := by
  have high := n.toNat_lt
  have inside : 0 ≤ (n.toNat : Int) ∧ (n.toNat : Int) ≤ 0xFFFFFFFF := by omega
  rw [ofUInt32, uint32?, if_pos inside, Int.toNat_natCast, UInt32.ofNat_toNat]

end Json.Value

/-! ## Fields by name -/

section Fields

variable {β : Type} {record kept unknown fields : List (String × β)} {key : String} {value : β}

/-- Where a name has one value at most, that value is found. -/
theorem lookup_eq_some_iff_mem
    (single : ∀ first second, (key, first) ∈ fields → (key, second) ∈ fields → first = second) :
    fields.lookup key = some value ↔ (key, value) ∈ fields := by
  have mem_of_found {value : β} (found : fields.lookup key = some value) :
      (key, value) ∈ fields := by
    obtain ⟨before, after, same, -⟩ := List.lookup_eq_some_iff.mp found
    simp [same]
  refine ⟨mem_of_found, fun member => ?_⟩
  have isSome : (fields.lookup key).isSome :=
    List.lookup_isSome_iff.mpr ⟨_, member, beq_self_eq_true key⟩
  obtain ⟨other, found⟩ := Option.isSome_iff_exists.mp isSome
  rw [found, single other value (mem_of_found found) member]

theorem single_of_nodup (distinct : (fields.map Prod.fst).Nodup) (key : String) (first second : β)
    (member : (key, first) ∈ fields) (memberToo : (key, second) ∈ fields) : first = second :=
  congrArg Prod.snd (List.inj_on_of_nodup_map distinct member memberToo rfl)

/-- A field is read by its name, in whatever order and next to whatever other fields it stands. -/
theorem lookup_of_perm (distinct : (kept.map Prod.fst).Nodup)
    (other : ∀ field ∈ unknown, field.1 ≠ key) (reordered : fields.Perm (kept ++ unknown)) :
    fields.lookup key = kept.lookup key := by
  have mem_iff (value : β) : (key, value) ∈ fields ↔ (key, value) ∈ kept := by
    rw [reordered.mem_iff, List.mem_append, or_iff_left fun member => other _ member rfl]
  have single := single_of_nodup distinct key
  ext value
  rw [lookup_eq_some_iff_mem single, ← mem_iff]
  refine lookup_eq_some_iff_mem fun first second member memberToo => ?_
  exact single first second ((mem_iff first).mp member) ((mem_iff second).mp memberToo)

/-- A field that is there has the value that the record gives it. -/
theorem lookup_of_sublist (distinct : (record.map Prod.fst).Nodup) (sublist : kept.Sublist record)
    (given : (key, value) ∈ record) :
    kept.lookup key = some value ∨ kept.lookup key = none ∧ (key, value) ∉ kept := by
  have single := single_of_nodup ((sublist.map Prod.fst).nodup distinct) key
  by_cases member : (key, value) ∈ kept
  · exact .inl ((lookup_eq_some_iff_mem single).mpr member)
  · refine .inr ⟨Option.eq_none_iff_forall_ne_some.mpr fun other found => member ?_, member⟩
    -- Another value would be one of the record too, where the name has this one only.
    have foundMember := (lookup_eq_some_iff_mem single).mp found
    rwa [single_of_nodup distinct key value other given (sublist.subset foundMember)]

end Fields

/-! ## Records -/

theorem Interval.ofJson?_toJson (interval : Interval) :
    ofJson? interval.toJson = some interval := by
  simp [toJson, ofJson?, ofFields?, List.lookup_cons]

theorem Predicate.ofJson?_toJson (predicate : Predicate) :
    ofJson? predicate.toJson = some predicate := by
  simp [toJson, ofJson?, ofFields?, List.lookup_cons, Value.bool?]

theorem PrecedenceCheck.ofJson?_toJson (check : PrecedenceCheck) :
    ofJson? check.toJson = some check := by
  simp [toJson, ofJson?, ofFields?]

theorem Condition.ofJson?_toJson (condition : Condition) :
    ofJson? condition.toJson = some condition := by
  cases condition with
  | always => rfl
  | predicate predicate =>
    exact congrArg (Option.map Condition.predicate) predicate.ofJson?_toJson
  | precedence check => exact congrArg (Option.map Condition.precedence) check.ofJson?_toJson

namespace Token

/-- The names of the fields of a token. -/
def fieldNames : List String :=
  ["type", "index", "text", "line", "column"]

/-- The fields of a token by position. -/
def toItems (token : Token) : List Value :=
  [.ofInt32 token.type, .ofInt32 token.index, token.text.elim .null .str, .ofUInt32 token.line,
    .ofUInt32 token.column]

/-- The fields that may be missing: those that are read as zero. -/
def Omissible (field : String × Value) : Prop :=
  field = ("line", .ofUInt32 0) ∨ field = ("column", .ofUInt32 0)

variable {token : Token} {kept unknown fields : List (String × Value)}

theorem nodup_names_toFields (token : Token) : (token.toFields.map Prod.fst).Nodup := by
  rcases token with ⟨type, index, - | text, line, column⟩ <;> simp [toFields]

theorem ofFields?_eq {text line column : Option Value}
    (readText : textOfField? text = some token.text)
    (readLine : positionOfField? line = some token.line)
    (readColumn : positionOfField? column = some token.column) :
    ofFields? (some (.ofInt32 token.type)) (some (.ofInt32 token.index)) text line column =
      some token := by
  simp [ofFields?, readText, readLine, readColumn]

theorem textOfField?_text (token : Token) :
    textOfField? (token.text.map .str) = some token.text := by
  cases token.text <;> rfl

theorem ofJson?_toItems (token : Token) : ofJson? (.arr token.toItems) = some token := by
  have readText : textOfField? (some (token.text.elim .null .str)) = some token.text := by
    cases token.text <;> rfl
  exact ofFields?_eq readText (Value.uint32?_ofUInt32 _) (Value.uint32?_ofUInt32 _)

/-- A field that may not be missing is found. -/
theorem lookup_of_required {name : String} {value : Value} (sublist : kept.Sublist token.toFields)
    (complete : ∀ field ∈ token.toFields, field ∈ kept ∨ Omissible field)
    (given : (name, value) ∈ token.toFields) (required : ¬Omissible (name, value)) :
    kept.lookup name = some value := by
  rcases lookup_of_sublist (nodup_names_toFields token) sublist given with found | ⟨-, missing⟩
  · exact found
  · exact absurd ((complete _ given).resolve_left missing) required

theorem position_of_omissible {name : String} {position : UInt32}
    (omissible : Omissible (name, .ofUInt32 position)) : position = 0 := by
  have same : Value.ofUInt32 position = .ofUInt32 0 :=
    omissible.elim (congrArg Prod.snd) (congrArg Prod.snd)
  have read := congrArg Value.uint32? same
  simpa using read

/-- A line or column is found or is read as the zero that it is. -/
theorem positionOfField?_lookup {name : String} {position : UInt32}
    (sublist : kept.Sublist token.toFields)
    (complete : ∀ field ∈ token.toFields, field ∈ kept ∨ Omissible field)
    (given : (name, .ofUInt32 position) ∈ token.toFields) :
    positionOfField? (kept.lookup name) = some position := by
  rcases lookup_of_sublist (nodup_names_toFields token) sublist given with
    found | ⟨notFound, missing⟩
  · rw [found]
    exact Value.uint32?_ofUInt32 position
  · have omissible := (complete _ given).resolve_left missing
    rw [notFound, position_of_omissible omissible]
    rfl

theorem lookup_text (sublist : kept.Sublist token.toFields)
    (complete : ∀ field ∈ token.toFields, field ∈ kept ∨ Omissible field) :
    kept.lookup "text" = token.text.map .str := by
  rcases hasText : token.text with - | text
  · refine List.lookup_eq_none_iff.mpr fun field member => ?_
    have given := sublist.subset member
    simp [toFields, hasText] at given
    rcases given with rfl | rfl | rfl | rfl <;> rfl
  · exact lookup_of_required sublist complete (by simp [toFields, hasText]) (by simp [Omissible])

/-- A token is read from its fields in any order and among others, where zero positions may be
missing. -/
theorem ofJson?_obj (sublist : kept.Sublist token.toFields)
    (complete : ∀ field ∈ token.toFields, field ∈ kept ∨ Omissible field)
    (other : ∀ field ∈ unknown, field.1 ∉ fieldNames)
    (reordered : fields.Perm (kept ++ unknown)) : ofJson? (.obj fields) = some token := by
  have distinct := (sublist.map Prod.fst).nodup (nodup_names_toFields token)
  have read (name : String) (known : name ∈ fieldNames) : fields.lookup name = kept.lookup name :=
    lookup_of_perm distinct (fun field member same => other field member (same ▸ known)) reordered
  have isType : kept.lookup "type" = some (.ofInt32 token.type) :=
    lookup_of_required sublist complete (by simp [toFields]) (by simp [Omissible])
  have isIndex : kept.lookup "index" = some (.ofInt32 token.index) :=
    lookup_of_required sublist complete (by simp [toFields]) (by simp [Omissible])
  rw [ofJson?, read "type" (by decide), read "index" (by decide), read "text" (by decide),
    read "line" (by decide), read "column" (by decide), isType, isIndex,
    lookup_text sublist complete]
  exact ofFields?_eq (textOfField?_text token)
    (positionOfField?_lookup sublist complete (by simp [toFields]))
    (positionOfField?_lookup sublist complete (by simp [toFields]))

theorem ofJson?_toJson (token : Token) : ofJson? token.toJson = some token := by
  have reordered : token.toFields.Perm (token.toFields ++ []) := by rw [List.append_nil]
  exact ofJson?_obj (.refl _) (fun _ => .inl) (by simp) reordered

end Token

/-! ## All of them -/

/-- What is written is read back unchanged. A token is also read from its fields by position, and
from an object with its fields in any order, where other fields may be added and a line or a column
that is zero may be left out. -/
theorem read_back_unchanged :
    (∀ interval : Interval, Interval.ofJson? interval.toJson = some interval) ∧
      (∀ predicate : Predicate, Predicate.ofJson? predicate.toJson = some predicate) ∧
      (∀ check : PrecedenceCheck, PrecedenceCheck.ofJson? check.toJson = some check) ∧
      (∀ condition : Condition, Condition.ofJson? condition.toJson = some condition) ∧
      ∀ token : Token,
        Token.ofJson? token.toJson = some token ∧
        Token.ofJson? (.arr token.toItems) = some token ∧
        ∀ kept unknown fields : List (String × Value), kept.Sublist token.toFields →
          (∀ field ∈ token.toFields, field ∈ kept ∨ Token.Omissible field) →
          (∀ field ∈ unknown, field.1 ∉ Token.fieldNames) →
          fields.Perm (kept ++ unknown) →
            Token.ofJson? (.obj fields) = some token :=
  ⟨Interval.ofJson?_toJson, Predicate.ofJson?_toJson, PrecedenceCheck.ofJson?_toJson,
    Condition.ofJson?_toJson, fun token =>
      ⟨token.ofJson?_toJson, token.ofJson?_toItems, fun _ _ _ => Token.ofJson?_obj⟩⟩

/-- A token at the beginning of a line. -/
def atLineStart : Token :=
  ⟨-1, 7, some "a", 3, 0⟩

/-- The column is missing, the other fields are turned around, and one is not of a token. -/
theorem read_back_reversed :
    Token.ofJson? (.obj [("channel", .int 1), ("line", .int 3), ("text", .str "a"),
      ("index", .int 7), ("type", .int (-1))]) = some atLineStart := by
  obtain ⟨-, -, -, -, ofToken⟩ := read_back_unchanged
  obtain ⟨-, -, ofObject⟩ := ofToken atLineStart
  refine ofObject (atLineStart.toFields.take 4) [("channel", .int 1)] _ (List.take_sublist 4 _)
    (fun field member => ?_) (by simp [Token.fieldNames])
    (List.reverse_perm (atLineStart.toFields.take 4 ++ [("channel", Value.int 1)]))
  rw [← List.take_append_drop 4 atLineStart.toFields] at member
  exact (List.mem_append.mp member).imp_right fun column => .inr (List.mem_singleton.mp column)

end Recognizer
