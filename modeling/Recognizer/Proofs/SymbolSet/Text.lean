import Recognizer.Proofs.SymbolSet.Extensionality
import Recognizer.Proofs.Text.Delimited
import Recognizer.SymbolSet.Text

/-!
# Symbol sets are told apart by their texts

The text of a symbol begins with a digit, a minus sign or an angle bracket, and is told from other
ones where no digit follows (`symbolName_inj`).  The dots of a range, the comma between intervals
and the closing brace are no digits, so the intervals can be read off from left to right
(`readable_symbolText`).

A set is written with braces unless it has one member.  A canonical set with one member is one
interval of length one (`Canonical.eq_single`), so that a text without braces is that of a symbol.
-/

namespace Recognizer

open Text (Stops Opens Readable Delimits)

variable {x y : Symbol} {rest otherRest : List Char}

/-! ## Symbols -/

/-- The characters with which a number can begin. -/
def OpensNumber (c : Char) : Prop :=
  c.isDigit ∨ c = '-'

/-- The characters with which the text of a symbol can begin. -/
def OpensName (c : Char) : Prop :=
  OpensNumber c ∨ c = '<'

theorem opens_int32 (x : Symbol) : Opens OpensNumber (Text.int32 x).toList := by
  unfold Text.int32
  rcases x.toInt with n | n
  · obtain ⟨digit, digits, isRepr, isDigit⟩ := Text.opens_repr n
    exact ⟨digit, digits, isRepr, .inl isDigit⟩
  · exact ⟨_, _, Text.repr_negSucc n, .inr rfl⟩

theorem symbolName_cases (x : Symbol) : (x = endOfInput ∧ symbolName x = "<EOF>") ∨
    (x = nothingConsumed ∧ symbolName x = "<EPSILON>") ∨ symbolName x = Text.int32 x := by
  unfold symbolName
  split
  · exact .inl ⟨‹_›, rfl⟩
  · split
    · exact .inr (.inl ⟨‹_›, rfl⟩)
    · exact .inr (.inr rfl)

theorem opens_symbolName (x : Symbol) : Opens OpensName (symbolName x).toList := by
  rcases symbolName_cases x with ⟨-, name⟩ | ⟨-, name⟩ | name <;> rw [name]
  · exact ⟨_, _, rfl, .inr rfl⟩
  · exact ⟨_, _, rfl, .inr rfl⟩
  · obtain ⟨c, cs, isText, opens⟩ := opens_int32 x
    exact ⟨c, cs, isText, .inl opens⟩

/-- A number is not taken for a name in angle brackets. -/
theorem int32_ne_angle : (Text.int32 x).toList ++ rest ≠ '<' :: otherRest :=
  (opens_int32 x).ne_cons (by simp [OpensNumber])

theorem int32_inj (stops : Stops (·.isDigit) rest) (otherStops : Stops (·.isDigit) otherRest)
    (same : (Text.int32 x).toList ++ rest = (Text.int32 y).toList ++ otherRest) :
    x = y ∧ rest = otherRest := by
  obtain ⟨values, after⟩ := Text.int_repr_inj stops otherStops same
  exact ⟨Int32.toInt_inj.mp values, after⟩

theorem symbolName_inj (stops : Stops (·.isDigit) rest) (otherStops : Stops (·.isDigit) otherRest)
    (same : (symbolName x).toList ++ rest = (symbolName y).toList ++ otherRest) :
    x = y ∧ rest = otherRest := by
  rcases symbolName_cases x with ⟨rfl, name⟩ | ⟨rfl, name⟩ | name <;> rw [name] at same <;>
    rcases symbolName_cases y with ⟨rfl, otherName⟩ | ⟨rfl, otherName⟩ | otherName <;>
    rw [otherName] at same
  · exact ⟨rfl, List.append_cancel_left same⟩
  · exact absurd same (by simp)
  · exact absurd same.symm int32_ne_angle
  · exact absurd same (by simp)
  · exact ⟨rfl, List.append_cancel_left same⟩
  · exact absurd same.symm int32_ne_angle
  · exact absurd same int32_ne_angle
  · exact absurd same int32_ne_angle
  · exact int32_inj stops otherStops same

/-! ## Intervals -/

namespace Interval

variable {iv other : Interval}

/-- The characters with which the text of an interval could go on. -/
def InRange (c : Char) : Prop :=
  c.isDigit ∨ c = '.'

theorem stops_digit (stops : Stops InRange rest) : Stops (·.isDigit) rest :=
  fun c next isDigit => stops c next (.inl isDigit)

theorem toList_symbolText_of_eq (single : iv.lo = iv.hi) :
    iv.symbolText.toList = (symbolName iv.lo).toList := by
  rw [symbolText, if_pos single]

theorem toList_symbolText_of_ne (several : iv.lo ≠ iv.hi) : iv.symbolText.toList =
    (symbolName iv.lo).toList ++ '.' :: '.' :: (symbolName iv.hi).toList := by
  rw [symbolText, if_neg several, rangeName, String.toList_append, String.toList_append,
    List.append_assoc]
  rfl

/-- A symbol alone is not taken for the start of a range. -/
theorem symbolText_ne_of_single (single : iv.lo = iv.hi) (several : other.lo ≠ other.hi)
    (stops : Stops InRange rest) :
    iv.symbolText.toList ++ rest ≠ other.symbolText.toList ++ otherRest := by
  intro same
  rw [toList_symbolText_of_eq single, toList_symbolText_of_ne several, List.append_assoc] at same
  obtain ⟨-, rfl⟩ := symbolName_inj (stops_digit stops) (Text.stops_cons (by decide) _) same
  exact stops '.' rfl (.inr rfl)

theorem readable_symbolText (iv : Interval) :
    Readable (fun _ => True) (Stops InRange) (·.symbolText.toList) iv := by
  intro other rest otherRest _ stops otherStops same
  by_cases single : iv.lo = iv.hi <;> by_cases otherSingle : other.lo = other.hi
  · dsimp only at same
    rw [toList_symbolText_of_eq single, toList_symbolText_of_eq otherSingle] at same
    obtain ⟨starts, after⟩ := symbolName_inj (stops_digit stops) (stops_digit otherStops) same
    have stopsToo : iv.hi = other.hi := single.symm.trans (starts.trans otherSingle)
    exact ⟨eq_of_toInt_eq (congrArg _ starts) (congrArg _ stopsToo), after⟩
  · exact absurd same (symbolText_ne_of_single single otherSingle stops)
  · exact absurd same.symm (symbolText_ne_of_single otherSingle single otherStops)
  · dsimp only at same
    simp only [toList_symbolText_of_ne single, toList_symbolText_of_ne otherSingle,
      List.append_assoc, List.cons_append] at same
    obtain ⟨starts, dots⟩ :=
      symbolName_inj (Text.stops_cons (by decide) _) (Text.stops_cons (by decide) _) same
    simp only [List.cons.injEq, true_and] at dots
    obtain ⟨ends, after⟩ := symbolName_inj (stops_digit stops) (stops_digit otherStops) dots
    exact ⟨eq_of_toInt_eq (congrArg _ starts) (congrArg _ ends), after⟩

theorem delimits : Delimits [',', ' '] '\x7d' (Stops InRange) where
  goesOn rest := Text.stops_cons (by simp [InRange]) (' ' :: rest)
  closes := Text.stops_cons (by simp [InRange])
  differ _ _ same := absurd (List.cons.inj same).1 (by decide)

theorem symbolText_ne_closing (iv : Interval) (rest otherRest : List Char) :
    iv.symbolText.toList ++ rest ≠ '\x7d' :: otherRest := by
  have other : ¬ OpensName '\x7d' := by simp [OpensName, OpensNumber]
  by_cases single : iv.lo = iv.hi
  · rw [toList_symbolText_of_eq single]
    exact (opens_symbolName iv.lo).ne_cons other
  · rw [toList_symbolText_of_ne single, List.append_assoc]
    exact (opens_symbolName iv.lo).ne_cons other

/-- No interval of a canonical list is empty. -/
theorem Canonical.length_le_total {intervals : List Interval} (canonical : Canonical intervals) :
    intervals.length ≤ total (intervals.map length) := by
  induction intervals with
  | nil => exact Nat.zero_le _
  | cons iv rest ih =>
    obtain ⟨valid, -, canonicalRest⟩ := canonical_cons.mp canonical
    have fewer := ih canonicalRest
    have member : 1 ≤ iv.length := by
      unfold length
      omega
    rw [List.length_cons, List.map_cons, total_cons]
    omega

end Interval

/-! ## Sets -/

namespace SymbolSet

variable {set other : SymbolSet}

/-- A set with one member is one interval. -/
theorem Canonical.eq_single (canonical : set.Canonical) (one : set.size = 1) :
    ∃ x, set = ⟨#[⟨x, x⟩]⟩ := by
  have few := Interval.Canonical.length_le_total canonical
  change _ ≤ set.size at few
  rcases set with ⟨⟨_ | ⟨iv, _ | ⟨next, rest⟩⟩⟩⟩
  · cases one
  · have length : (iv.hi.toInt + 1 - iv.lo.toInt).toNat = 1 := one
    have ends : iv.hi.toInt = iv.lo.toInt := by omega
    have single : iv = ⟨iv.lo, iv.lo⟩ := Interval.eq_of_toInt_eq rfl ends
    exact ⟨iv.lo, congrArg (fun iv => mk #[iv]) single⟩
  · rw [one] at few
    simp at few

theorem toList_text_of_size_ne (canonical : set.Canonical) (notOne : set.size ≠ 1) :
    set.text.toList = '\x7b' ::
      ([',', ' '].intercalate (set.intervals.toList.map (·.symbolText.toList)) ++ ['\x7d']) := by
  have few := Interval.Canonical.length_le_total canonical
  change _ ≤ set.size at few
  unfold text
  split
  · rename_i empty
    have noInterval : set.intervals.toList = [] := by simpa [isEmpty] using empty
    rw [noInterval]
    rfl
  · rename_i notEmpty
    have someInterval : set.intervals.toList ≠ [] := by simpa [isEmpty] using notEmpty
    have many : 1 < set.size := by
      have positive := List.length_pos_iff.mpr someInterval
      omega
    simp [many, Text.joined, String.toList_intercalate, Function.comp_def]

theorem text_of_single (x : Symbol) : text ⟨#[⟨x, x⟩]⟩ = symbolName x := by
  have one : ¬ 1 < size ⟨#[⟨x, x⟩]⟩ := by
    have length : size ⟨#[⟨x, x⟩]⟩ = (x.toInt + 1 - x.toInt).toNat := rfl
    omega
  simp [text, isEmpty, one, Text.joined, Interval.symbolText]

/-- A text with a brace is not that of a single symbol. -/
theorem text_ne_of_size (canonical : set.Canonical) (notOne : set.size ≠ 1) (x : Symbol) :
    set.text ≠ symbolName x := by
  intro same
  have chars := congrArg String.toList same
  rw [toList_text_of_size_ne canonical notOne, ← List.append_nil (symbolName x).toList] at chars
  exact (opens_symbolName x).ne_cons (by simp [OpensName, OpensNumber]) chars.symm

theorem Canonical.text_inj (canonical : set.Canonical) (canonicalToo : other.Canonical)
    (same : set.text = other.text) : set = other := by
  by_cases one : set.size = 1 <;> by_cases otherOne : other.size = 1
  · obtain ⟨x, rfl⟩ := canonical.eq_single one
    obtain ⟨y, rfl⟩ := canonicalToo.eq_single otherOne
    rw [text_of_single, text_of_single] at same
    have chars : (symbolName x).toList ++ [] = (symbolName y).toList ++ [] :=
      congrArg (String.toList · ++ []) same
    rw [(symbolName_inj Text.stops_nil Text.stops_nil chars).1]
  · obtain ⟨x, rfl⟩ := canonical.eq_single one
    rw [text_of_single] at same
    exact absurd same.symm (text_ne_of_size canonicalToo otherOne x)
  · obtain ⟨y, rfl⟩ := canonicalToo.eq_single otherOne
    rw [text_of_single] at same
    exact absurd same (text_ne_of_size canonical one y)
  · have chars := congrArg String.toList same
    rw [toList_text_of_size_ne canonical one, toList_text_of_size_ne canonicalToo otherOne,
      List.cons.injEq] at chars
    obtain ⟨lists, -⟩ := Text.separated_inj Interval.delimits
      (fun iv _ => iv.readable_symbolText) (fun _ _ => trivial) Interval.symbolText_ne_closing
      chars.2
    rcases set with ⟨intervals⟩
    rcases other with ⟨others⟩
    exact congrArg mk (Array.toList_inj.mp lists)

namespace Recipe

/-- Two sets, however they are made, have the same text exactly if the search answers alike in them
for every symbol. -/
theorem text_eq_iff (first second : Recipe) :
    first.build.text = second.build.text ↔
      ∀ x, first.build.contains x = second.build.contains x := by
  have canonical := first.canonical_build
  have canonicalToo := second.canonical_build
  constructor
  · intro same x
    rw [canonical.text_inj canonicalToo same]
  · intro same
    have members (x : Symbol) : x ∈ first.build ↔ x ∈ second.build := by
      rw [← contains_iff canonical, same, contains_iff canonicalToo]
    rw [canonical.ext canonicalToo members]

/-- A range from one reserved symbol to the other. -/
example : (Recipe.ofRange (-2) (-1)).build.text = "\x7b<EPSILON>..<EOF>\x7d" := by decide +kernel

end Recipe

end SymbolSet

end Recognizer
