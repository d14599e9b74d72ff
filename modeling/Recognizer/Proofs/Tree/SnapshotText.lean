import Recognizer.Proofs.Json.CompactText
import Recognizer.Proofs.Json.ReadBack
import Recognizer.Tree.Snapshot

/-!
# What the text of a snapshot says

A snapshot is written as an object that begins with its kind and leaves out what the node does not
have.  Each field of a rule entry can be looked up under its name, whether or not the fields before
it are there (`lookup_alt`, `lookup_span`, `lookup_children`), so a field that is left out cannot be
taken for another one.  Hence the JSON form of a snapshot determines it (`toJson_inj`), and by
`Json.Value.obj_inj` its text does too (`text_tells_all`).
-/

namespace Recognizer.Tree.Snapshot

open Json (Value)

/-! ## Fields of a rule entry -/

/-- The fields of a rule entry, with the form of its children. -/
def ruleFields (name : String) (alt : Option UInt32) (span : Option Interval) (children : Value) :
    List (String × Value) :=
  [("kind", .str "rule"), ("rule", .str name)] ++
    (alt.toList.map fun alt => ("alt", .ofUInt32 alt)) ++
    (span.toList.map fun span => ("span", span.toJson)) ++ [("children", children)]

section Fields

variable (name : String) (alt : Option UInt32) (span : Option Interval) (children : Value)

theorem lookup_rule :
    (ruleFields name alt span children).lookup "rule" = some (.str name) := rfl

theorem lookup_alt :
    (ruleFields name alt span children).lookup "alt" = alt.map Value.ofUInt32 := by
  cases alt <;> cases span <;> rfl

theorem lookup_span :
    (ruleFields name alt span children).lookup "span" = span.map Interval.toJson := by
  cases alt <;> cases span <;> rfl

theorem lookup_children :
    (ruleFields name alt span children).lookup "children" = some children := by
  cases alt <;> cases span <;> rfl

end Fields

theorem toJson_rule (name : String) (alt : Option UInt32) (span : Option Interval)
    (children : List Snapshot) :
    (rule name alt span children).toJson =
      .obj (ruleFields name alt span (.arr (toJsonAll children))) := by
  rw [toJson, ruleFields]

/-! ## Forms determine snapshots -/

/-- What is read back unchanged was not written for anything else. -/
theorem injective_of_read {α : Type} {write : α → Value} {read : Value → Option α}
    (read_write : ∀ x, read (write x) = some x) : Function.Injective write := by
  intro x y same
  have readToo := read_write y
  rw [← same, read_write] at readToo
  exact Option.some.inj readToo

theorem ofUInt32_injective : Function.Injective Value.ofUInt32 :=
  injective_of_read Value.uint32?_ofUInt32

theorem interval_injective : Function.Injective Interval.toJson :=
  injective_of_read Interval.ofJson?_toJson

theorem token_injective : Function.Injective Token.toJson :=
  injective_of_read Token.ofJson?_toJson

theorem tag_injective : Function.Injective LeafKind.tag := by
  intro kind other same
  cases kind <;> cases other <;> simp_all [LeafKind.tag]

theorem leaf_inj {kind otherKind : LeafKind} {token otherToken : Token}
    (same : (leaf kind token).toJson = (leaf otherKind otherToken).toJson) :
    leaf kind token = leaf otherKind otherToken := by
  simp only [toJson, Value.obj.injEq, List.cons.injEq, Prod.mk.injEq, true_and, and_true,
    Value.str.injEq] at same
  rw [tag_injective same.1, token_injective same.2]

/-- The kind of a leaf is never that of a rule entry. -/
theorem leaf_ne_rule {kind : LeafKind} {token : Token} {name : String} {alt : Option UInt32}
    {span : Option Interval} {children : List Snapshot} :
    (leaf kind token).toJson ≠ (rule name alt span children).toJson := by
  cases kind <;> simp [toJson, LeafKind.tag]

theorem rule_inj {name otherName : String} {alt otherAlt : Option UInt32}
    {span otherSpan : Option Interval} {children otherChildren : List Snapshot}
    (same : (rule name alt span children).toJson =
      (rule otherName otherAlt otherSpan otherChildren).toJson) :
    name = otherName ∧ alt = otherAlt ∧ span = otherSpan ∧
      toJsonAll children = toJsonAll otherChildren := by
  rw [toJson_rule, toJson_rule] at same
  have sameField (key : String) := congrArg (List.lookup key) (Value.obj.inj same)
  have names := sameField "rule"
  have alts := sameField "alt"
  have spans := sameField "span"
  have below := sameField "children"
  rw [lookup_rule, lookup_rule] at names
  rw [lookup_alt, lookup_alt] at alts
  rw [lookup_span, lookup_span] at spans
  rw [lookup_children, lookup_children] at below
  exact ⟨Value.str.inj (Option.some.inj names), Option.map_injective ofUInt32_injective alts,
    Option.map_injective interval_injective spans, Value.arr.inj (Option.some.inj below)⟩

mutual

theorem toJson_inj : (x y : Snapshot) → x.toJson = y.toJson → x = y
  | leaf _ _, leaf _ _, same => leaf_inj same
  | leaf _ _, rule _ _ _ _, same => absurd same leaf_ne_rule
  | rule _ _ _ _, leaf _ _, same => absurd same.symm leaf_ne_rule
  | rule _ _ _ children, rule _ _ _ otherChildren, same => by
    obtain ⟨rfl, rfl, rfl, below⟩ := rule_inj same
    rw [toJsonAll_inj children otherChildren below]

theorem toJsonAll_inj : (xs ys : List Snapshot) → toJsonAll xs = toJsonAll ys → xs = ys
  | [], [], _ => rfl
  | [], _ :: _, same => by cases same
  | _ :: _, [], same => by cases same
  | x :: xs, y :: ys, same => by
    obtain ⟨first, rest⟩ := List.cons.inj same
    rw [toJson_inj x y first, toJsonAll_inj xs ys rest]

end

/-! ## Texts determine snapshots -/

theorem exists_toJson_eq_obj (snapshot : Snapshot) : ∃ fields, snapshot.toJson = .obj fields := by
  cases snapshot with
  | leaf kind token => exact ⟨_, rfl⟩
  | rule name alt span children => exact ⟨_, toJson_rule name alt span children⟩

/-- Snapshots are told apart by any texts that begin with theirs. -/
theorem text_append_inj {x y : Snapshot} {rest otherRest : String}
    (same : x.text ++ rest = y.text ++ otherRest) : x = y ∧ rest = otherRest := by
  obtain ⟨fields, isObj⟩ := x.exists_toJson_eq_obj
  obtain ⟨others, otherIsObj⟩ := y.exists_toJson_eq_obj
  have chars := congrArg String.toList same
  rw [String.toList_append, String.toList_append, text, text, isObj, otherIsObj] at chars
  obtain ⟨rfl, after⟩ := Value.obj_inj (Value.ends_fields fields) chars
  exact ⟨toJson_inj x y (isObj.trans otherIsObj.symm), String.toList_inj.mp after⟩

/-- Snapshots of any depth, with any names and token texts, have equal texts only if they are equal,
and each text says where it ends: what is written behind it is known too. So an alternative, a span
or a token text that is left out is told from one that is there, and a terminal from an error. -/
theorem text_tells_all :
    (∀ x y : Snapshot, x.text = y.text ↔ x = y) ∧
      (∀ (x y : Snapshot) (rest otherRest : String),
        x.text ++ rest = y.text ++ otherRest ↔ x = y ∧ rest = otherRest) ∧
      (∀ name otherName alt span otherSpan children otherChildren,
        (rule name none span children).text ≠
          (rule otherName (some alt) otherSpan otherChildren).text) ∧
      (∀ name otherName alt otherAlt span children otherChildren,
        (rule name alt none children).text ≠
          (rule otherName otherAlt (some span) otherChildren).text) ∧
      (∀ (kind otherKind : LeafKind) (token other : Token) (text : String),
        (leaf kind { token with text := none }).text ≠
          (leaf otherKind (other.withText text)).text) ∧
      ∀ token other : Token, (leaf .terminal token).text ≠ (leaf .error other).text := by
  have determines {x y : Snapshot} (same : x.text = y.text) : x = y :=
    (text_append_inj (congrArg (· ++ "") same)).1
  refine ⟨fun x y => ⟨determines, congrArg text⟩, fun x y rest otherRest => ⟨text_append_inj, ?_⟩,
    ?_, ?_, ?_, ?_⟩
  · rintro ⟨rfl, rfl⟩
    rfl
  · intro _ _ _ _ _ _ _ same
    cases determines same
  · intro _ _ _ _ _ _ _ same
    cases determines same
  · intro _ _ _ _ _ same
    obtain ⟨-, tokens⟩ := leaf.inj (determines same)
    cases congrArg Token.text tokens
  · intro _ _ same
    cases determines same

end Recognizer.Tree.Snapshot
