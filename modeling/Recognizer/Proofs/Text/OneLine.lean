import Recognizer.Proofs.Text.Whitespace
import Recognizer.Proofs.Trace.Lines
import Recognizer.Proofs.Tree.Unambiguity

/-!
# Renderings on one line

Texts of tokens and names of rules may have any characters in them.  A bracketed form escapes every
label, so that none of them can break its line (`Labelled.oneLine`).  A log escapes the texts of
tokens but writes names as they are: each of its lines is one line if the names are, and a name that
is not breaks at least the line at which its rule is entered (`oneLine_linesOf_iff`).

What stands around labels, texts and names is fixed, or a number, or an escape of the terminal, and
breaks no line either.
-/

namespace Recognizer

open Text (Highlight OneLine Shade)

/-! ## Bracketed forms -/

namespace Tree

open LabelTree (print printAll)

theorem oneLine_printAll {trees : List LabelTree} (each : ∀ tree ∈ trees, OneLine tree.print) :
    OneLine (printAll trees) := by
  induction trees with
  | nil => decide
  | cons tree trees ih =>
    obtain ⟨here, others⟩ := List.forall_mem_cons.mp each
    rw [printAll]
    exact (Text.Consists.append (by decide) here).append (ih others)

theorem oneLine_print {label : String} {children : List LabelTree} (here : OneLine label)
    (below : ∀ child ∈ children, OneLine child.print) :
    OneLine (LabelTree.node label children).print := by
  rcases children with - | ⟨first, rest⟩
  · rwa [print]
  · have opened : OneLine ("(" ++ label) := .append (by decide) here
    rw [print]
    exact (opened.append (oneLine_printAll below)).append (by decide)

variable {arena : Arena} {names : RuleNames} {id : NodeId} {ids : List NodeId}
  {trees : List LabelTree}

/-- No label breaks the line of a printed tree, since all labels of nodes are escaped. -/
theorem Labelled.oneLine (labelled : Labelled arena names ids trees) :
    ∀ tree ∈ trees, OneLine tree.print := by
  induction labelled with
  | nil => exact List.forall_mem_nil _
  | @cons id ids below trees _ _ ihInner ih =>
    have label : OneLine (arena.visibleLabel names id) := Text.oneLine_escape false _
    exact List.forall_mem_cons.mpr ⟨oneLine_print label ihInner, ih⟩

theorem Arena.EndsBelow.exists_oneLine (ends : arena.EndsBelow id) (names : RuleNames) :
    ∃ form, arena.bracketed? names id = some form ∧ OneLine form := by
  obtain ⟨tree, labelled⟩ := ends.exists_labelled names
  exact ⟨tree.print, labelled.bracketed?_eq ends,
    labelled.oneLine tree (List.mem_singleton_self tree)⟩

end Tree

/-! ## Logs -/

namespace TraceLog

variable {names : RuleNames} {openRules : List String} {hook : Hook} {hooks : List Hook}

theorem oneLine_paint_iff (highlight : Highlight) (shade : Shade) {fragment : String} :
    OneLine (highlight.paint shade fragment) ↔ OneLine fragment := by
  have code : OneLine shade.code := by cases shade <;> decide
  have reset : OneLine Shade.reset := by decide
  unfold Highlight.paint
  split
  · rw [OneLine, Text.consists_append, Text.consists_append, and_iff_right code,
      and_iff_left reset]
  · exact Iff.rfl

theorem oneLine_indented_iff {depth : Nat} {body : String} :
    OneLine (indented depth body) ↔ OneLine body := by
  have indentation : OneLine (String.join (List.replicate depth indentStep)) :=
    fun _ member => blank_of_mem_indentation member ▸ by decide
  rw [indented, OneLine, Text.consists_append, and_iff_right indentation]

theorem oneLine_activationName_iff {rule : RuleIndex} :
    OneLine (activationName names rule) ↔ ∀ name ∈ names rule, OneLine name := by
  refine ⟨fun oneLine name named => ?_, consists_activationName Text.inLine_of_printable⟩
  have isName : activationName names rule = name := by rw [activationName, named, Option.getD_some]
  rwa [isName] at oneLine

theorem oneLine_positionText (verbosity : Verbosity) (highlight : Highlight)
    (token : Option Token) : OneLine (positionText verbosity highlight token) := by
  rcases token with - | token
  · exact (by decide : OneLine "")
  · have index := (Text.printable_int32 token.index).imp Text.inLine_of_printable
    have position : OneLine ("@" ++ Text.int32 token.index) := .append (by decide) index
    have shown : OneLine (" " ++ highlight.paint .dim ("@" ++ Text.int32 token.index)) :=
      .append (by decide) ((oneLine_paint_iff highlight .dim).mpr position)
    cases verbosity with
    | brief => exact (by decide : OneLine "")
    | verbose | full => exact shown

/-- Whatever the text of a token is, it is shown on one line. -/
theorem oneLine_tokenText (verbosity : Verbosity) (highlight : Highlight) (token : Token) :
    OneLine (tokenText verbosity highlight token) := by
  have type : OneLine token.typeText := token.printable_typeText.imp Text.inLine_of_printable
  cases verbosity with
  | brief => exact type
  | verbose =>
    have text := Text.oneLine_escape false token.displayText
    exact (type.append (by decide)).append ((oneLine_paint_iff highlight .token).mpr text)
  | full => exact (oneLine_paint_iff highlight .token).mpr token.oneLine_describe

/-- A line is broken by the name that it shows or not at all. -/
theorem oneLine_body? (ofOpen : ∀ name ∈ openRules, OneLine name)
    (ofEntered : ∀ rule start, hook = .enter rule start → OneLine (activationName names rule))
    (verbosity : Verbosity) (highlight : Highlight) :
    ∀ body ∈ body? names verbosity highlight openRules hook, OneLine body := by
  have current : OneLine _ := forall_currentName ofOpen (by decide)
  cases hook with
  | enter rule start =>
    rintro _ ⟨⟩
    have name := (oneLine_paint_iff highlight .rule).mpr (ofEntered rule start rfl)
    have entered : OneLine ("enter " ++ _) := .append (by decide) name
    exact entered.append (oneLine_positionText _ _ _)
  | exit stop =>
    rintro _ ⟨⟩
    have name := (oneLine_paint_iff highlight .rule).mpr current
    have ended : OneLine ("exit " ++ _) := .append (by decide) name
    exact ended.append (oneLine_positionText _ _ _)
  | alt number =>
    rintro _ ⟨⟩
    have number := (Text.printable_uint32 number).imp Text.inLine_of_printable
    have label := (current.append (by decide : OneLine ":")).append number
    exact .append (by decide) ((oneLine_paint_iff highlight .rule).mpr label)
  | consume token =>
    cases verbosity with
    | brief => exact nofun
    | verbose | full =>
      rintro _ ⟨⟩
      exact .append (by decide) (oneLine_tokenText _ _ _)
  | error token =>
    rintro _ ⟨⟩
    have mark := (oneLine_paint_iff highlight .error).mpr (by decide : OneLine "error")
    exact (mark.append (by decide)).append (oneLine_tokenText _ _ _)
  | retract =>
    rintro _ ⟨⟩
    exact (oneLine_paint_iff highlight .dim).mpr (by decide)

/-- The line at which a rule is entered shows its name. -/
theorem oneLine_name_of_enter {verbosity : Verbosity} {highlight : Highlight} {rule : RuleIndex}
    {start : Token}
    (oneLine : ∀ line ∈ line? names verbosity highlight (openRules, .enter rule start),
      OneLine line) : OneLine (activationName names rule) := by
  have body := oneLine_indented_iff.mp (oneLine _ rfl)
  rw [OneLine, Text.consists_append, Text.consists_append] at body
  exact (oneLine_paint_iff highlight .rule).mp body.1.2

theorem mem_linesOf {config : Config} {line : String} :
    line ∈ linesOf names config hooks ↔ ∃ moment ∈ moments names [] hooks,
      line? names config.verbosity config.highlight moment = some line := by
  rw [linesOf_eq, List.mem_filterMap]

theorem oneLine_linesOf_iff {config : Config} :
    (∀ line ∈ linesOf names config hooks, OneLine line) ↔
      ∀ rule start, .enter rule start ∈ hooks → OneLine (activationName names rule) := by
  constructor
  · intro oneLine rule start entered
    rw [← map_snd_moments names [] hooks] at entered
    obtain ⟨⟨openRules, -⟩, member, rfl⟩ := List.mem_map.mp entered
    exact oneLine_name_of_enter fun line isLine =>
      oneLine line (mem_linesOf.mpr ⟨_, member, isLine⟩)
  · intro ofEntered line isLine
    obtain ⟨moment, member, shown⟩ := mem_linesOf.mp isLine
    obtain ⟨body, isBody, rfl⟩ := Option.map_eq_some_iff.mp shown
    have ofOpen : ∀ name ∈ moment.1, OneLine name :=
      forall_open_of_mem_moments (List.forall_mem_nil _) ofEntered moment member
    have entering (rule : RuleIndex) (start : Token) (isEnter : moment.2 = .enter rule start) :
        OneLine (activationName names rule) :=
      ofEntered rule start (isEnter ▸ mem_of_mem_moments member)
    exact oneLine_indented_iff.mpr (oneLine_body? ofOpen entering _ _ body isBody)

end TraceLog

/-! ## All renderings -/

open Recognizer.Tree (Arena Mutation NodeId)
open Text (Consists Kept escape)
open TraceLog (linesOf)

/-- Escaping leaves no line feed, carriage return or tab in any text, and no space either if spaces
are made visible.  It is idempotent, goes through concatenations, and changes no text that has none
of these characters to begin with.  Whatever the names of rules and the texts of tokens are, the
bracketed form of a node, provided that the child lists below it run in no circle, and the
description of a token are each on one line.  The lines of a log are, whatever is shown in them, if
and only if the names of the rules that are entered are. -/
theorem renderings_stay_on_one_line :
    (∀ (spaces : Bool) (text : String),
      OneLine (escape spaces text) ∧ (spaces = true → ' ' ∉ (escape spaces text).toList) ∧
        escape spaces (escape spaces text) = escape spaces text ∧
        (∀ rest, escape spaces (text ++ rest) = escape spaces text ++ escape spaces rest) ∧
        (escape spaces text = text ↔ Consists (Kept spaces) text)) ∧
      (∀ (arena : Arena) (id : NodeId) (names : RuleNames), arena.EndsBelow id →
        ∃ form, arena.bracketed? names id = some form ∧ OneLine form) ∧
      (∀ token : Token, OneLine token.describe) ∧
      ∀ (names : RuleNames) (config : Config) (hooks : List Hook),
        (∀ line ∈ linesOf names config hooks, OneLine line) ↔
          ∀ rule start, .enter rule start ∈ hooks → ∀ name ∈ names rule, OneLine name := by
  refine ⟨fun spaces text => ?_, fun _ _ names ends => ends.exists_oneLine names,
    Token.oneLine_describe, fun names config hooks => ?_⟩
  · have noSpace (visible : spaces = true) : ' ' ∉ (escape spaces text).toList :=
      fun member => (Text.kept_escape spaces text ' ' member).2 visible rfl
    exact ⟨Text.oneLine_escape spaces text, noSpace, Text.escape_escape spaces text,
      Text.escape_append spaces text, Text.escape_eq_self_iff⟩
  · rw [TraceLog.oneLine_linesOf_iff]
    simp only [TraceLog.oneLine_activationName_iff]

/-- The end of a line as a token of its own. -/
def lineEnd : Token :=
  ⟨6, 1, some "\r\n", 1, 3⟩

/-- A labelled alternative with a tab in one token and the end of a line as the other one. -/
def tabAndLineEnd : Arena :=
  [Mutation.create none none (some 0), .setAlt ⟨0⟩ 2,
    .addLeaf ⟨0⟩ .terminal ⟨5, 0, some "a\tb", 1, 0⟩,
    .addLeaf ⟨0⟩ .error lineEnd].foldl Mutation.leave .empty

/-- A tree is on one line with any name, a log with a name that is. -/
theorem one_line_of_tabAndLineEnd :
    let names := RuleNames.ofList ["ex\npr"]
    let hooks : List Hook := [.enter 0 lineEnd, .error lineEnd, .exit (some lineEnd)]
    tabAndLineEnd.EndsBelow ⟨0⟩ ∧
      tabAndLineEnd.bracketed? names ⟨0⟩ = some "(ex\\npr:2 a\\tb \\r\\n)" ∧
      OneLine "(ex\\npr:2 a\\tb \\r\\n)" ∧
      linesOf (.ofList ["expr"]) ⟨true, .full, .off⟩ hooks =
        ["enter expr @1", "  error [@1,'\\r\\n',<6>,1:3]", "exit expr @1"] ∧
      (∀ line ∈ linesOf (.ofList ["expr"]) ⟨true, .full, .on⟩ hooks, OneLine line) ∧
      ¬∀ line ∈ linesOf names ⟨true, .full, .on⟩ hooks, OneLine line := by
  intro names hooks
  have shown : tabAndLineEnd.bracketed? names ⟨0⟩ = some "(ex\\npr:2 a\\tb \\r\\n)" := by
    decide +kernel
  have ends : tabAndLineEnd.EndsBelow ⟨0⟩ :=
    Arena.isSome_bracketed?.mp (Option.isSome_of_eq_some shown)
  obtain ⟨-, forms, -, logs⟩ := renderings_stay_on_one_line
  obtain ⟨form, found, oneLine⟩ := forms tabAndLineEnd ⟨0⟩ names ends
  rw [Option.some.inj (found.symm.trans shown)] at oneLine
  refine ⟨ends, shown, oneLine, by decide +kernel, (logs _ _ hooks).mpr ?_, fun all => ?_⟩
  · intro rule start _ name named
    have each : ∀ name ∈ ["expr"], OneLine name := by decide
    exact each name (List.mem_of_getElem? named)
  · have name := (logs names _ hooks).mp all 0 lineEnd List.mem_cons_self "ex\npr" rfl
    exact absurd name (by decide)

end Recognizer
