import Mathlib.Data.List.Basic
import Recognizer.Proofs.Text.Display

/-!
# Texts on one line

`escape` writes nothing that it would not keep itself (`kept_of_mem_visible`).  The texts that it
keeps are therefore exactly those without whitespace to be made visible (`escape_eq_self_iff`), and
what is escaped once is kept from then on (`escape_escape`).  It goes through the text character by
character, so that it does not matter whether fragments are escaped or their concatenation
(`escape_append`).

An escaped text stays on one line whatever the text is, and so does the description of a token.
-/

namespace Recognizer

namespace Text

/-- The character is no line feed, no carriage return and no tab. -/
def InLine (c : Char) : Prop :=
  c ≠ '\n' ∧ c ≠ '\r' ∧ c ≠ '\t'

instance : DecidablePred InLine :=
  fun c => inferInstanceAs (Decidable (c ≠ '\n' ∧ c ≠ '\r' ∧ c ≠ '\t'))

/-- The text has no line feeds, no carriage returns and no tabs. -/
abbrev OneLine (text : String) : Prop :=
  Consists InLine text

/-- The character is not one that is made visible. -/
def Kept (spaces : Bool) (c : Char) : Prop :=
  InLine c ∧ (spaces = true → c ≠ ' ')

section Escape

variable {spaces : Bool} {c : Char} {text : String}

theorem inLine_of_printable (c : Char) (printable : Printable c) : InLine c := by
  have different {control : Char} (outside : ¬Printable control) : c ≠ control :=
    fun same => outside (same ▸ printable)
  exact ⟨different (by decide), different (by decide), different (by decide)⟩

/-- The characters that are kept are those that are written as themselves. -/
theorem visible_eq_self_iff : visible spaces c = [c] ↔ Kept spaces c := by
  constructor
  · intro same
    refine ⟨⟨?_, ?_, ?_⟩, ?_⟩
    · rintro rfl
      cases same
    · rintro rfl
      cases same
    · rintro rfl
      cases same
    · rintro rfl rfl
      exact absurd same (by decide)
  · rintro ⟨⟨noFeed, noReturn, noTab⟩, noSpace⟩
    unfold visible
    split
    · exact if_neg fun isVisible => noSpace isVisible rfl
    · exact absurd rfl noFeed
    · exact absurd rfl noReturn
    · exact absurd rfl noTab
    · rfl

/-- What a character is written with is not made visible another time. -/
theorem kept_of_mem_visible {original : Char} (written : c ∈ visible spaces original) :
    Kept spaces c := by
  obtain ⟨rfl, same⟩ | ⟨-, rfl⟩ | ⟨printable, notSpace⟩ := mem_visible_cases written
  · exact visible_eq_self_iff.mp same
  · exact ⟨by decide, fun _ => by decide⟩
  · exact ⟨inLine_of_printable c printable, fun _ => notSpace⟩

theorem kept_escape (spaces : Bool) (text : String) :
    Consists (Kept spaces) (escape spaces text) := by
  intro c member
  rw [escape, String.toList_ofList, List.mem_flatMap] at member
  obtain ⟨original, -, written⟩ := member
  exact kept_of_mem_visible written

/-- A text is kept exactly if it has no whitespace that is made visible. -/
theorem escape_eq_self_iff : escape spaces text = text ↔ Consists (Kept spaces) text := by
  constructor
  · intro same
    rw [← same]
    exact kept_escape spaces text
  · intro kept
    have unchanged : text.toList.flatMap (visible spaces) = text.toList :=
      (List.flatMap_congr fun c member => visible_eq_self_iff.mpr (kept c member)).trans
        (List.flatMap_singleton' text.toList)
    rw [escape, unchanged, String.ofList_toList]

theorem escape_escape (spaces : Bool) (text : String) :
    escape spaces (escape spaces text) = escape spaces text :=
  escape_eq_self_iff.mpr (kept_escape spaces text)

theorem escape_append (spaces : Bool) (text rest : String) :
    escape spaces (text ++ rest) = escape spaces text ++ escape spaces rest := by
  unfold escape
  rw [String.toList_append, List.flatMap_append, String.ofList_append]

theorem oneLine_escape (spaces : Bool) (text : String) : OneLine (escape spaces text) :=
  (kept_escape spaces text).imp fun _ kept => kept.1

end Escape

end Text

/-- No text of a token breaks the line of its description. -/
theorem Token.oneLine_describe (token : Token) : Text.OneLine token.describe :=
  consists_describe_of_shown Text.inLine_of_printable (Text.oneLine_escape false token.displayText)

end Recognizer
