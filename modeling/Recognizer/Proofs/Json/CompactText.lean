import Recognizer.Json.Compact
import Recognizer.Proofs.Text.Delimited

/-!
# What a compact text says

A JSON value is known from its compact text (`compact_injective`), and an object also from any text
that begins with it (`obj_inj`).  The first character tells the kind of a value (`kind_eq`).  A
string ends at its first quote without a backslash, since escapes can be undone character by
character (`unescape_escapeChar`), and a number ends where the value does.  Arrays and objects are
sequences in brackets of what can be told apart already.
-/

namespace Recognizer.Json

open Text (Delimits Readable Stops)

/-! ## Strings -/

/-- The value of a lower-case hexadecimal digit. -/
def hexValue (digit : Char) : Nat :=
  if digit.isDigit then digit.toNat - 48 else digit.toNat - 87

/-- The first character of an escaped text, and the escaped rest. -/
def unescape : List Char → Option (Char × List Char)
  | [] => none
  | '\\' :: 'u' :: '0' :: '0' :: high :: low :: rest =>
    some (Char.ofNat (16 * hexValue high + hexValue low), rest)
  | '\\' :: 'b' :: rest => some ('\x08', rest)
  | '\\' :: 'f' :: rest => some ('\x0c', rest)
  | '\\' :: 'n' :: rest => some ('\n', rest)
  | '\\' :: 'r' :: rest => some ('\r', rest)
  | '\\' :: 't' :: rest => some ('\t', rest)
  | '\\' :: c :: rest => some (c, rest)
  | c :: rest => some (c, rest)

theorem hexValue_digitChar : ∀ d < 16, hexValue (Nat.digitChar d) = d := by
  decide

theorem unescape_of_ne_backslash {c : Char} (ne : c ≠ '\\') (rest : List Char) :
    unescape (c :: rest) = some (c, rest) := by
  unfold unescape
  split <;> simp_all

/-- Escapes can be undone. -/
theorem unescape_escapeChar (c : Char) (rest : List Char) :
    unescape (escapeChar c ++ rest) = some (c, rest) := by
  unfold escapeChar
  split
  case h_8 _ _ notBackslash _ _ _ _ _ =>
    split
    next control =>
      have high := hexValue_digitChar (c.toNat / 16) (by omega)
      have low := hexValue_digitChar (c.toNat % 16) (by omega)
      simp only [List.cons_append, List.nil_append, unescape, high, low, Nat.div_add_mod,
        Char.ofNat_toNat]
    next => exact unescape_of_ne_backslash notBackslash rest
  all_goals rfl

/-- A quote inside a string has a backslash before it. -/
theorem escapeChar_ne_quote (c : Char) (rest otherRest : List Char) :
    escapeChar c ++ rest ≠ '"' :: otherRest := by
  intro same
  have undone := unescape_escapeChar c rest
  rw [same, unescape_of_ne_backslash (by decide)] at undone
  cases undone
  cases same

variable {rest otherRest : List Char}

theorem escaped_inj {cs ds : List Char}
    (same : cs.flatMap escapeChar ++ '"' :: rest = ds.flatMap escapeChar ++ '"' :: otherRest) :
    cs = ds ∧ rest = otherRest := by
  induction cs generalizing ds with
  | nil =>
    rcases ds with - | ⟨d, ds⟩
    · exact ⟨rfl, (List.cons.inj same).2⟩
    · rw [List.flatMap_cons, List.append_assoc] at same
      exact absurd same.symm (escapeChar_ne_quote d _ _)
  | cons c cs ih =>
    rw [List.flatMap_cons, List.append_assoc] at same
    rcases ds with - | ⟨d, ds⟩
    · exact absurd same (escapeChar_ne_quote c _ _)
    · rw [List.flatMap_cons, List.append_assoc] at same
      have undone := unescape_escapeChar c (cs.flatMap escapeChar ++ '"' :: rest)
      rw [same, unescape_escapeChar] at undone
      obtain ⟨rfl, sameRest⟩ := Prod.mk.inj (Option.some.inj undone)
      obtain ⟨rfl, after⟩ := ih sameRest.symm
      exact ⟨rfl, after⟩

theorem toList_quoted (text : String) :
    (quoted text).toList = '"' :: (text.toList.flatMap escapeChar ++ ['"']) :=
  String.toList_ofList

/-- Quoted strings are told apart, whatever follows them. -/
theorem quoted_inj {text other : String}
    (same : (quoted text).toList ++ rest = (quoted other).toList ++ otherRest) :
    text = other ∧ rest = otherRest := by
  rw [toList_quoted, toList_quoted] at same
  simp only [List.cons_append, List.append_assoc, List.nil_append, List.cons.injEq,
    true_and] at same
  obtain ⟨chars, after⟩ := escaped_inj same
  exact ⟨String.toList_inj.mp chars, after⟩

namespace Value

/-! ## Written forms -/

/-- The compact text as characters. -/
def chars (value : Value) : List Char :=
  value.compact.toList

/-- A field of an object as characters. -/
def fieldChars (field : String × Value) : List Char :=
  (quoted field.1).toList ++ ':' :: field.2.chars

theorem map_toList_itemTexts (items : List Value) :
    (itemTexts items).map String.toList = items.map chars := by
  induction items with
  | nil => rfl
  | cons item items ih => rw [itemTexts, List.map_cons, ih, List.map_cons, chars]

theorem map_toList_fieldTexts (fields : List (String × Value)) :
    (fieldTexts fields).map String.toList = fields.map fieldChars := by
  induction fields with
  | nil => rfl
  | cons field fields ih =>
    obtain ⟨key, value⟩ := field
    rw [fieldTexts, List.map_cons, ih, List.map_cons, fieldChars, chars]
    simp

theorem chars_arr (items : List Value) :
    chars (.arr items) = '[' :: ([','].intercalate (items.map chars) ++ [']']) := by
  simp [chars, compact, String.toList_intercalate, map_toList_itemTexts]

theorem chars_obj (fields : List (String × Value)) :
    chars (.obj fields) =
      '\x7b' :: ([','].intercalate (fields.map fieldChars) ++ ['\x7d']) := by
  simp [chars, compact, String.toList_intercalate, map_toList_fieldTexts]

theorem chars_decimal (mantissa : Int) (places : Nat) :
    chars (.decimal mantissa places) =
      mantissa.repr.toList ++ 'e' :: '-' :: places.repr.toList := by
  simp [chars, compact]

/-! ## Kinds of values -/

/-- What a value is; integers and decimals are numbers. -/
inductive Kind
  | null
  | boolean
  | number
  | string
  | array
  | object

def kind : Value → Kind
  | .null => .null
  | .bool _ => .boolean
  | .int _ | .decimal _ _ => .number
  | .str _ => .string
  | .arr _ => .array
  | .obj _ => .object

/-- The kind of the values whose text begins with a character. -/
def kindOf? (first : Char) : Option Kind :=
  if first.isDigit then some .number
  else match first with
    | '-' => some .number
    | 'n' => some .null
    | 't' | 'f' => some .boolean
    | '"' => some .string
    | '[' => some .array
    | '\x7b' => some .object
    | _ => none

theorem kindOf?_repr (n : Int) (rest : List Char) :
    (n.repr.toList ++ rest).head?.bind kindOf? = some .number := by
  cases n with
  | ofNat n =>
    obtain ⟨digit, digits, isRepr, isDigit⟩ := Text.opens_repr n
    change (n.repr.toList ++ rest).head?.bind kindOf? = some .number
    rw [isRepr]
    simp [kindOf?, isDigit]
  | negSucc n =>
    rw [Text.repr_negSucc]
    rfl

/-- The first character of a text tells the kind of the value. -/
theorem kindOf?_chars (value : Value) (rest : List Char) :
    (value.chars ++ rest).head?.bind kindOf? = some value.kind := by
  cases value with
  | int n => exact kindOf?_repr n rest
  | decimal mantissa places =>
    rw [chars_decimal, List.append_assoc]
    exact kindOf?_repr mantissa _
  | str text =>
    rw [chars, compact, toList_quoted]
    rfl
  | arr items =>
    rw [chars_arr]
    rfl
  | obj fields =>
    rw [chars_obj]
    rfl
  | null => rfl
  | bool b => cases b <;> rfl

theorem kind_eq {x y : Value} (same : x.chars ++ rest = y.chars ++ otherRest) :
    x.kind = y.kind := by
  have kinds := kindOf?_chars x rest
  rw [same, kindOf?_chars] at kinds
  exact (Option.some.inj kinds).symm

/-! ## Where values end -/

/-- The character is none of those that follow a value in an array or object. -/
def InValue (c : Char) : Prop :=
  c ≠ ',' ∧ c ≠ ']' ∧ c ≠ '\x7d'

/-- The value is told from all others where a comma, a closing bracket or nothing follows. -/
abbrev Ends (value : Value) : Prop :=
  Readable (fun _ => True) (Stops InValue) chars value

theorem inValue_of_isDigit {c : Char} (isDigit : c.isDigit) : InValue c := by
  refine ⟨?_, ?_, ?_⟩ <;> rintro rfl <;> cases isDigit

theorem delimits_arr : Delimits [','] ']' (Stops InValue) where
  goesOn := Text.stops_cons (by simp [InValue])
  closes := Text.stops_cons (by simp [InValue])
  differ _ _ same := absurd (List.cons.inj same).1 (by decide)

theorem delimits_obj : Delimits [','] '\x7d' (Stops InValue) where
  goesOn := Text.stops_cons (by simp [InValue])
  closes := Text.stops_cons (by simp [InValue])
  differ _ _ same := absurd (List.cons.inj same).1 (by decide)

theorem stops_digit (stops : Stops InValue rest) : Stops (·.isDigit) rest :=
  fun c next isDigit => stops c next (inValue_of_isDigit isDigit)

theorem stops_exponent (rest : List Char) : Stops (·.isDigit) ('e' :: rest) :=
  Text.stops_cons (by decide) rest

/-- An integer does not go on with an exponent. -/
theorem int_ne_decimal {n mantissa : Int} {places : Nat} (stops : Stops InValue rest) :
    chars (.int n) ++ rest ≠ chars (.decimal mantissa places) ++ otherRest := by
  intro same
  rw [chars_decimal, List.append_assoc] at same
  obtain ⟨-, rfl⟩ := Text.int_repr_inj (stops_digit stops) (stops_exponent _) same
  exact stops 'e' rfl (by simp [InValue])

theorem decimal_inj {mantissa otherMantissa : Int} {places otherPlaces : Nat}
    (stops : Stops InValue rest) (otherStops : Stops InValue otherRest)
    (same : chars (.decimal mantissa places) ++ rest =
      chars (.decimal otherMantissa otherPlaces) ++ otherRest) :
    Value.decimal mantissa places = .decimal otherMantissa otherPlaces ∧ rest = otherRest := by
  simp only [chars_decimal, List.append_assoc, List.cons_append] at same
  obtain ⟨rfl, exponents⟩ := Text.int_repr_inj (stops_exponent _) (stops_exponent _) same
  simp only [List.cons.injEq, true_and] at exponents
  obtain ⟨rfl, after⟩ := Text.nat_repr_inj (stops_digit stops) (stops_digit otherStops) exponents
  exact ⟨rfl, after⟩

theorem arr_inj {items others : List Value} (ends : ∀ item ∈ items, item.Ends)
    (same : chars (.arr items) ++ rest = chars (.arr others) ++ otherRest) :
    items = others ∧ rest = otherRest := by
  simp only [chars_arr, List.cons_append, List.append_assoc, List.nil_append, List.cons.injEq,
    true_and] at same
  refine Text.separated_inj delimits_arr ends (fun _ _ => trivial) ?_ same
  intro item rest otherRest begins
  have kind := kindOf?_chars item rest
  rw [begins] at kind
  cases kind

theorem readable_field {field : String × Value} (ends : field.2.Ends) :
    Readable (fun _ => True) (Stops InValue) fieldChars field := by
  rintro ⟨otherKey, other⟩ rest otherRest - stops otherStops same
  obtain ⟨key, value⟩ := field
  simp only [fieldChars, List.append_assoc, List.cons_append] at same
  obtain ⟨rfl, sameValue⟩ := quoted_inj same
  obtain ⟨rfl, after⟩ := ends other _ _ trivial stops otherStops (List.cons.inj sameValue).2
  exact ⟨rfl, after⟩

theorem obj_inj {fields others : List (String × Value)} (ends : ∀ field ∈ fields, field.2.Ends)
    (same : chars (.obj fields) ++ rest = chars (.obj others) ++ otherRest) :
    fields = others ∧ rest = otherRest := by
  simp only [chars_obj, List.cons_append, List.append_assoc, List.nil_append, List.cons.injEq,
    true_and] at same
  refine Text.separated_inj delimits_obj (fun field member => readable_field (ends field member))
    (fun _ _ => trivial) ?_ same
  intro field rest otherRest begins
  rw [fieldChars, toList_quoted] at begins
  cases begins

/-- The text of another kind of value begins otherwise. -/
theorem ends_of_kind {value : Value}
    (told : ∀ other rest otherRest, other.kind = value.kind → Stops InValue rest →
      Stops InValue otherRest → value.chars ++ rest = other.chars ++ otherRest →
        value = other ∧ rest = otherRest) : value.Ends :=
  fun other rest otherRest _ stops otherStops same =>
    told other rest otherRest (kind_eq same).symm stops otherStops same

mutual

theorem ends : (value : Value) → value.Ends
  | .null => ends_of_kind fun other rest otherRest kind _ _ same => by
    cases other with
    | null => exact ⟨rfl, List.append_cancel_left same⟩
    | _ => cases kind
  | .bool b => ends_of_kind fun other rest otherRest kind _ _ same => by
    cases other with
    | bool c => cases b <;> cases c <;> simp_all [chars, compact]
    | _ => cases kind
  | .int _ => ends_of_kind fun other rest otherRest kind stops otherStops same => by
    cases other with
    | int m =>
      obtain ⟨rfl, after⟩ := Text.int_repr_inj (stops_digit stops) (stops_digit otherStops) same
      exact ⟨rfl, after⟩
    | decimal => exact absurd same (int_ne_decimal stops)
    | _ => cases kind
  | .decimal _ _ => ends_of_kind fun other rest otherRest kind stops otherStops same => by
    cases other with
    | int m => exact absurd same.symm (int_ne_decimal otherStops)
    | decimal => exact decimal_inj stops otherStops same
    | _ => cases kind
  | .str _ => ends_of_kind fun other rest otherRest kind _ _ same => by
    cases other with
    | str =>
      obtain ⟨rfl, after⟩ := quoted_inj same
      exact ⟨rfl, after⟩
    | _ => cases kind
  | .arr items => ends_of_kind fun other rest otherRest kind _ _ same => by
    cases other with
    | arr =>
      obtain ⟨rfl, after⟩ := arr_inj (ends_items items) same
      exact ⟨rfl, after⟩
    | _ => cases kind
  | .obj fields => ends_of_kind fun other rest otherRest kind _ _ same => by
    cases other with
    | obj =>
      obtain ⟨rfl, after⟩ := obj_inj (ends_fields fields) same
      exact ⟨rfl, after⟩
    | _ => cases kind

theorem ends_items : (items : List Value) → ∀ item ∈ items, item.Ends
  | [] => List.forall_mem_nil _
  | item :: items => List.forall_mem_cons.mpr ⟨ends item, ends_items items⟩

theorem ends_fields : (fields : List (String × Value)) → ∀ field ∈ fields, field.2.Ends
  | [] => List.forall_mem_nil _
  | (_, value) :: fields => List.forall_mem_cons.mpr ⟨ends value, ends_fields fields⟩

end

/-- A value is known from its compact text. -/
theorem compact_injective : Function.Injective compact := by
  intro x y same
  have chars : x.chars ++ [] = y.chars ++ [] := congrArg (String.toList · ++ []) same
  exact (ends x y [] [] trivial Text.stops_nil Text.stops_nil chars).1

end Value

end Recognizer.Json
