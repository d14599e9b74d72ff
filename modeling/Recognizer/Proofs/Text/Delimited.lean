import Mathlib.Data.List.Basic

/-!
# Texts that say where they end

Values that are written one after the other can be told apart if each written form says where it
ends.  A word does so by what follows it, for it goes on as long as there are characters of its kind
(`append_inj_of_stops`).  This tells numbers apart, where no digit follows (`nat_repr_inj`,
`int_repr_inj`).

`Readable` says that a written form is told from the others, and where it ends, by any text that
begins with it.  It carries over from items to sequences of items in brackets, with a separator
before each item (`preceded_inj`) or between neighbours (`separated_inj`).
-/

namespace Recognizer.Text

/-! ## Words -/

/-- No character of the given kind comes next. -/
def Stops (inWord : Char → Prop) (rest : List Char) : Prop :=
  ∀ c ∈ rest.head?, ¬inWord c

section Words

variable {inWord : Char → Prop} {word other rest otherRest : List Char}

theorem stops_nil : Stops inWord [] := by
  simp [Stops]

theorem stops_cons {c : Char} (outside : ¬inWord c) (rest : List Char) :
    Stops inWord (c :: rest) := by
  simpa [Stops] using outside

/-- Words are told apart where no character of their kind follows them. -/
theorem append_inj_of_stops (inside : ∀ c ∈ word, inWord c) (otherInside : ∀ c ∈ other, inWord c)
    (stops : Stops inWord rest) (otherStops : Stops inWord otherRest)
    (same : word ++ rest = other ++ otherRest) : word = other ∧ rest = otherRest := by
  induction word generalizing other with
  | nil =>
    rcases other with - | ⟨c, other⟩
    · exact ⟨rfl, same⟩
    · subst same
      exact absurd (otherInside c List.mem_cons_self) (stops c rfl)
  | cons c word ih =>
    obtain ⟨here, insideRest⟩ := List.forall_mem_cons.mp inside
    rcases other with - | ⟨d, other⟩
    · subst same
      exact absurd here (otherStops c rfl)
    · obtain ⟨rfl, sameRest⟩ := List.cons.inj same
      obtain ⟨rfl, after⟩ := ih insideRest (List.forall_mem_cons.mp otherInside).2 sameRest
      exact ⟨rfl, after⟩

/-- The word begins with a character of the given kind. -/
def Opens (kind : Char → Prop) (word : List Char) : Prop :=
  ∃ c cs, word = c :: cs ∧ kind c

theorem Opens.ne_cons {kind : Char → Prop} {c : Char} (opens : Opens kind word)
    (other : ¬kind c) : word ++ rest ≠ c :: otherRest := by
  intro same
  obtain ⟨first, following, rfl, isKind⟩ := opens
  rw [(List.cons.inj same).1] at isKind
  exact other isKind

end Words

/-! ## Numbers -/

section Numbers

variable {rest otherRest : List Char}

theorem isDigit_of_mem_repr {n : Nat} : ∀ c ∈ n.repr.toList, c.isDigit := by
  intro c member
  rw [Nat.toList_repr] at member
  exact Nat.isDigit_of_mem_toDigits (by decide) (by decide) member

theorem repr_negSucc (n : Nat) :
    (Int.negSucc n).repr.toList = '-' :: (n + 1).repr.toList :=
  String.toList_append

/-- The text of an integer is made of digits, and a minus sign if it is negative. -/
theorem isDigit_or_of_mem_repr {n : Int} : ∀ c ∈ n.repr.toList, c.isDigit ∨ c = '-' := by
  cases n with
  | ofNat n => exact fun c member => .inl (isDigit_of_mem_repr c member)
  | negSucc n =>
    rw [repr_negSucc]
    exact List.forall_mem_cons.mpr ⟨.inr rfl, fun c member => .inl (isDigit_of_mem_repr c member)⟩

theorem opens_repr (n : Nat) : Opens (·.isDigit) n.repr.toList := by
  have nonempty : n.repr.toList ≠ [] := by
    rw [Nat.toList_repr]
    exact Nat.toDigits_ne_nil
  obtain ⟨digit, digits, same⟩ := List.exists_cons_of_ne_nil nonempty
  exact ⟨digit, digits, same, isDigit_of_mem_repr digit (same ▸ List.mem_cons_self)⟩

/-- Natural numbers are told apart where no digit follows them. -/
theorem nat_repr_inj {n m : Nat} (stops : Stops (·.isDigit) rest)
    (otherStops : Stops (·.isDigit) otherRest)
    (same : n.repr.toList ++ rest = m.repr.toList ++ otherRest) : n = m ∧ rest = otherRest := by
  obtain ⟨digits, after⟩ :=
    append_inj_of_stops isDigit_of_mem_repr isDigit_of_mem_repr stops otherStops same
  rw [Nat.toList_repr, Nat.toList_repr] at digits
  refine ⟨?_, after⟩
  rw [← Nat.ofDigitChars_ten_toDigits (n := n), digits, Nat.ofDigitChars_ten_toDigits]

/-- A natural number is written without a sign. -/
theorem nat_repr_ne_minus (n : Nat) (rest otherRest : List Char) :
    n.repr.toList ++ rest ≠ '-' :: otherRest :=
  (opens_repr n).ne_cons (by decide)

/-- Integers are told apart where no digit follows them. -/
theorem int_repr_inj {n m : Int} (stops : Stops (·.isDigit) rest)
    (otherStops : Stops (·.isDigit) otherRest)
    (same : n.repr.toList ++ rest = m.repr.toList ++ otherRest) : n = m ∧ rest = otherRest := by
  cases n with
  | ofNat n =>
    cases m with
    | ofNat m =>
      obtain ⟨rfl, after⟩ := nat_repr_inj stops otherStops same
      exact ⟨rfl, after⟩
    | negSucc m =>
      rw [repr_negSucc] at same
      exact absurd same (nat_repr_ne_minus n _ _)
  | negSucc n =>
    rw [repr_negSucc] at same
    cases m with
    | ofNat m => exact absurd same.symm (nat_repr_ne_minus m _ _)
    | negSucc m =>
      rw [repr_negSucc] at same
      obtain ⟨-, unsigned⟩ := List.cons.inj same
      obtain ⟨successors, after⟩ := nat_repr_inj stops otherStops unsigned
      exact ⟨congrArg Int.negSucc (Nat.succ.inj successors), after⟩

end Numbers

/-! ## Sequences -/

section Sequences

variable {α : Type} {valid : α → Prop} {follows : List Char → Prop} {write : α → List Char}
  {separator rest otherRest : List Char} {close : Char} {xs ys : List α}

/-- The written form of `x` is told from that of every valid value by any text in which it is
followed by what may follow. -/
def Readable (valid : α → Prop) (follows : List Char → Prop) (write : α → List Char) (x : α) :
    Prop :=
  ∀ y rest otherRest, valid y → follows rest → follows otherRest →
    write x ++ rest = write y ++ otherRest → x = y ∧ rest = otherRest

/-- After an item of a sequence, the separator or the closing bracket may follow, and these two are
not mistaken for each other. -/
structure Delimits (separator : List Char) (close : Char) (follows : List Char → Prop) : Prop where
  goesOn : ∀ rest, follows (separator ++ rest)
  closes : ∀ rest, follows (close :: rest)
  differ : ∀ rest otherRest, separator ++ rest ≠ close :: otherRest

/-- The items, with the separator before each of them. -/
def preceded (separator : List Char) (write : α → List Char) (xs : List α) : List Char :=
  xs.flatMap fun x => separator ++ write x

theorem preceded_cons (x : α) (xs : List α) :
    preceded separator write (x :: xs) = separator ++ (write x ++ preceded separator write xs) := by
  rw [preceded, List.flatMap_cons, List.append_assoc, preceded]

theorem Delimits.follows_preceded (delimits : Delimits separator close follows) (xs : List α)
    (rest : List Char) : follows (preceded separator write xs ++ close :: rest) := by
  rcases xs with - | ⟨x, xs⟩
  · exact delimits.closes rest
  · rw [preceded_cons, List.append_assoc]
    exact delimits.goesOn _

/-- Sequences with a separator before each item are told apart by their items. -/
theorem preceded_inj (delimits : Delimits separator close follows)
    (readable : ∀ x ∈ xs, Readable valid follows write x) (allValid : ∀ y ∈ ys, valid y)
    (same : preceded separator write xs ++ close :: rest =
      preceded separator write ys ++ close :: otherRest) : xs = ys ∧ rest = otherRest := by
  induction xs generalizing ys with
  | nil =>
    rcases ys with - | ⟨y, ys⟩
    · exact ⟨rfl, (List.cons.inj same).2⟩
    · rw [preceded_cons, List.append_assoc] at same
      exact absurd same.symm (delimits.differ _ _)
  | cons x xs ih =>
    rw [preceded_cons, List.append_assoc, List.append_assoc] at same
    rcases ys with - | ⟨y, ys⟩
    · exact absurd same (delimits.differ _ _)
    · obtain ⟨readableHere, readableRest⟩ := List.forall_mem_cons.mp readable
      obtain ⟨validHere, validRest⟩ := List.forall_mem_cons.mp allValid
      rw [preceded_cons, List.append_assoc, List.append_assoc] at same
      obtain ⟨rfl, sameRest⟩ := readableHere y _ _ validHere (delimits.follows_preceded xs rest)
        (delimits.follows_preceded ys otherRest) (List.append_cancel_left same)
      obtain ⟨rfl, after⟩ := ih readableRest validRest sameRest
      exact ⟨rfl, after⟩

theorem intercalate_cons (x : α) (xs : List α) :
    separator.intercalate ((x :: xs).map write) = write x ++ preceded separator write xs := by
  induction xs generalizing x with
  | nil =>
    rw [List.map_singleton, List.intercalate_singleton]
    exact (List.append_nil _).symm
  | cons y ys ih =>
    rw [List.map_cons, List.map_cons, List.intercalate_cons_cons, ← List.map_cons, ih,
      preceded_cons, List.append_assoc]

/-- Sequences with a separator between neighbours are told apart by their items, if no item begins
with the closing bracket. -/
theorem separated_inj (delimits : Delimits separator close follows)
    (readable : ∀ x ∈ xs, Readable valid follows write x) (allValid : ∀ y ∈ ys, valid y)
    (begins : ∀ x rest otherRest, write x ++ rest ≠ close :: otherRest)
    (same : separator.intercalate (xs.map write) ++ close :: rest =
      separator.intercalate (ys.map write) ++ close :: otherRest) :
    xs = ys ∧ rest = otherRest := by
  rcases xs with - | ⟨x, xs⟩ <;> rcases ys with - | ⟨y, ys⟩
  · exact ⟨rfl, (List.cons.inj same).2⟩
  · rw [intercalate_cons, List.append_assoc] at same
    exact absurd same.symm (begins _ _ _)
  · rw [intercalate_cons, List.append_assoc] at same
    exact absurd same (begins _ _ _)
  · obtain ⟨readableHere, readableRest⟩ := List.forall_mem_cons.mp readable
    obtain ⟨validHere, validRest⟩ := List.forall_mem_cons.mp allValid
    rw [intercalate_cons, intercalate_cons, List.append_assoc, List.append_assoc] at same
    obtain ⟨rfl, sameRest⟩ := readableHere y _ _ validHere (delimits.follows_preceded xs rest)
      (delimits.follows_preceded ys otherRest) same
    obtain ⟨rfl, after⟩ := preceded_inj delimits readableRest validRest sameRest
    exact ⟨rfl, after⟩

end Sequences

end Recognizer.Text
