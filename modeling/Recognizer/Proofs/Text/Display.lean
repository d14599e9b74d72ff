import Recognizer.Proofs.Text.Delimited
import Recognizer.Text.Highlight
import Recognizer.Token

/-!
# What a terminal displays

A terminal takes an escape as an instruction and displays the characters around it.  `shown` reads a
text in the same way and leaves the escapes out.  Whether a character is part of an escape depends
on what stands before it, so that `shown` does not go through a concatenation.  `Shows` says that a
fragment displays a text wherever it stands between escapes, and that does.

Highlighting wraps a fragment in escapes, and the fragment is displayed as it is, provided that it
has no escapes of its own (`shows_paint`).  What is written for numbers and tokens has none except
in the text of a token.
-/

namespace Recognizer

namespace Text

/-! ## Characters -/

/-- All characters of the text have the property. -/
def Consists (property : Char → Prop) (text : String) : Prop :=
  ∀ c ∈ text.toList, property c

instance (property : Char → Prop) [DecidablePred property] (text : String) :
    Decidable (Consists property text) :=
  List.decidableBAll property text.toList

/-- The character is a visible one of the ASCII range, or a space. -/
def Printable (c : Char) : Prop :=
  ' '.toNat ≤ c.toNat ∧ c.toNat ≤ '~'.toNat

instance : DecidablePred Printable :=
  fun c => inferInstanceAs (Decidable (' '.toNat ≤ c.toNat ∧ c.toNat ≤ '~'.toNat))

section Characters

variable {property other : Char → Prop} {text rest : String}

theorem consists_append :
    Consists property (text ++ rest) ↔ Consists property text ∧ Consists property rest := by
  unfold Consists
  rw [String.toList_append, List.forall_mem_append]

theorem Consists.append (first : Consists property text) (second : Consists property rest) :
    Consists property (text ++ rest) :=
  consists_append.mpr ⟨first, second⟩

theorem Consists.imp (consists : Consists property text) (implies : ∀ c, property c → other c) :
    Consists other text :=
  fun c member => implies c (consists c member)

theorem printable_of_isDigit {c : Char} (digit : c.isDigit) : Printable c := by
  simp only [Char.isDigit, Bool.and_eq_true, decide_eq_true_eq, ge_iff_le] at digit
  exact ⟨Nat.le_trans (by decide) (UInt32.le_iff_toNat_le.mp digit.1),
    Nat.le_trans (UInt32.le_iff_toNat_le.mp digit.2) (by decide)⟩

theorem printable_repr (n : Int) : Consists Printable n.repr := by
  intro c member
  rcases isDigit_or_of_mem_repr c member with digit | rfl
  · exact printable_of_isDigit digit
  · decide

theorem printable_int32 (value : Int32) : Consists Printable (int32 value) :=
  printable_repr value.toInt

theorem printable_uint32 (value : UInt32) : Consists Printable (uint32 value) :=
  fun c member => printable_of_isDigit (isDigit_of_mem_repr c member)

/-- A character is written as itself, or as a dot if it is a space, or with a backslash and a
letter. -/
theorem mem_visible_cases {spaces : Bool} {c original : Char}
    (written : c ∈ visible spaces original) :
    (c = original ∧ visible spaces original = [original]) ∨ (spaces = true ∧ c = '\u00b7') ∨
      (Printable c ∧ c ≠ ' ') := by
  have mark {letter : Char} (isMark : Printable letter ∧ letter ≠ ' ')
      (member : c ∈ ['\\', letter]) : Printable c ∧ c ≠ ' ' := by
    rcases List.mem_pair.mp member with rfl | rfl
    · decide
    · exact isMark
  generalize form : visible spaces original = characters at written ⊢
  unfold visible at form
  split at form <;> subst form
  · cases spaces with
    | false => exact .inl ⟨List.mem_singleton.mp written, rfl⟩
    | true => exact .inr (.inl ⟨rfl, List.mem_singleton.mp written⟩)
  · exact .inr (.inr (mark (by decide) written))
  · exact .inr (.inr (mark (by decide) written))
  · exact .inr (.inr (mark (by decide) written))
  · exact .inl ⟨List.mem_singleton.mp written, rfl⟩

/-- A character is written as itself, or with characters that are printable. -/
theorem eq_or_printable_of_mem_visible {c original : Char} (written : c ∈ visible false original) :
    c = original ∨ Printable c := by
  obtain ⟨same, -⟩ | ⟨⟨⟩, -⟩ | ⟨printable, -⟩ := mem_visible_cases written
  · exact .inl same
  · exact .inr printable

theorem consists_escape (printable : ∀ c, Printable c → property c)
    (consists : Consists property text) : Consists property (escape false text) := by
  intro c member
  rw [escape, String.toList_ofList, List.mem_flatMap] at member
  obtain ⟨original, inText, written⟩ := member
  rcases eq_or_printable_of_mem_visible written with rfl | isPrintable
  · exact consists c inText
  · exact printable c isPrintable

end Characters

end Text

/-! ## Tokens -/

namespace Token

open Text (Consists Printable)

variable {property : Char → Prop} {token : Token}

theorem printable_typeText (token : Token) : Consists Printable token.typeText := by
  rw [typeText, Text.consists_append, Text.consists_append]
  exact ⟨⟨by decide, Text.printable_int32 token.type⟩, by decide⟩

/-- A token is displayed with printable characters and those of its own text. -/
theorem consists_displayText (printable : ∀ c, Printable c → property c)
    (own : ∀ text ∈ token.text, Consists property text) :
    Consists property token.displayText := by
  unfold displayText
  split
  next text isText => exact own text isText
  next =>
    split
    · exact .imp (by decide) printable
    · exact token.printable_typeText.imp printable

/-- All of a description but the visible text is printable. -/
theorem consists_describe_of_shown (printable : ∀ c, Printable c → property c)
    (shown : Consists property (Text.escape false token.displayText)) :
    Consists property token.describe := by
  have written {text : String} (isPrintable : Consists Printable text) : Consists property text :=
    isPrintable.imp printable
  have index := written (Text.printable_int32 token.index)
  have type := written token.printable_typeText
  have line := written (Text.printable_uint32 token.line)
  have column := written (Text.printable_uint32 token.column)
  have quote := written (by decide : Consists Printable ",'")
  have endQuote := written (by decide : Consists Printable "',")
  have comma := written (by decide : Consists Printable ",")
  have colon := written (by decide : Consists Printable ":")
  have place : Consists property ("[@" ++ Text.int32 token.index) :=
    (written (by decide)).append index
  have shownText := (place.append quote).append shown
  have typed := (shownText.append endQuote).append type
  have positioned := (((typed.append comma).append line).append colon).append column
  exact positioned.append (written (by decide))

theorem consists_describe (printable : ∀ c, Printable c → property c)
    (own : ∀ text ∈ token.text, Consists property text) : Consists property token.describe :=
  consists_describe_of_shown printable
    (Text.consists_escape printable (consists_displayText printable own))

end Token

/-! ## Escapes -/

namespace Text

/-- The character that begins an escape. -/
def escapeMark : Char := '\x1b'

/-- The text has no escapes of its own. -/
abbrev Plain (text : String) : Prop :=
  Consists (· ≠ escapeMark) text

/-- What the next character is part of. -/
inductive Reading
  /-- The text that is displayed. -/
  | text
  /-- An escape that has just begun. -/
  | mark
  /-- An escape in brackets, up to its final character. -/
  | arguments

/-- What is displayed of the characters that are read. An escape is its mark and one character, or a
bracket and what follows up to the first character from `@` to `~`. -/
def shownFrom : Reading → List Char → List Char
  | _, [] => []
  | .text, c :: rest => if c = escapeMark then shownFrom .mark rest else c :: shownFrom .text rest
  | .mark, c :: rest => shownFrom (if c = '[' then .arguments else .text) rest
  | .arguments, c :: rest =>
    shownFrom (if '@'.toNat ≤ c.toNat ∧ c.toNat ≤ '~'.toNat then .text else .arguments) rest

/-- The text without its escapes. -/
def shown (text : String) : String :=
  String.ofList (shownFrom .text text.toList)

/-- A fragment between escapes displays a text, whatever follows. -/
def Shows (fragment text : String) : Prop :=
  ∀ rest, shownFrom .text (fragment.toList ++ rest) = text.toList ++ shownFrom .text rest

section Escapes

variable {fragment next text following : String}

theorem ne_escapeMark_of_printable (c : Char) (printable : Printable c) : c ≠ escapeMark :=
  fun same => absurd printable (same ▸ by decide)

theorem plain_of_printable (printable : Consists Printable text) : Plain text :=
  printable.imp ne_escapeMark_of_printable

theorem Shows.append (first : Shows fragment text) (second : Shows next following) :
    Shows (fragment ++ next) (text ++ following) := by
  intro rest
  rw [String.toList_append, String.toList_append, List.append_assoc, first, second,
    List.append_assoc]

theorem Shows.shown_eq (shows : Shows fragment text) : shown fragment = text := by
  have all := shows []
  rw [List.append_nil, shownFrom, List.append_nil] at all
  rw [shown, all, String.ofList_toList]

theorem shows_of_plain (plain : Plain text) : Shows text text := by
  intro rest
  have all (cs : List Char) (plain : ∀ c ∈ cs, c ≠ escapeMark) :
      shownFrom .text (cs ++ rest) = cs ++ shownFrom .text rest := by
    induction cs with
    | nil => rfl
    | cons c cs ih =>
      obtain ⟨here, others⟩ := List.forall_mem_cons.mp plain
      rw [List.cons_append, shownFrom, if_neg here, ih others, List.cons_append]
  exact all text.toList plain

theorem shows_code (shade : Shade) : Shows shade.code "" := by
  cases shade <;> exact fun _ => rfl

theorem shows_reset : Shows Shade.reset "" :=
  fun _ => rfl

/-- A highlighted fragment displays what it is without highlighting. -/
theorem shows_paint (highlight : Highlight) (shade : Shade) (plain : Plain text) :
    Shows (highlight.paint shade text) text := by
  unfold Highlight.paint
  split
  · have wrapped := ((shows_code shade).append (shows_of_plain plain)).append shows_reset
    rwa [String.empty_append, String.append_empty] at wrapped
  · exact shows_of_plain plain

end Escapes

example : shown "  \x1b[31merror\x1b[0m <2>" = "  error <2>" := by decide +kernel

end Text

end Recognizer
