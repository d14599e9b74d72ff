import Mathlib.Data.List.Forall2
import Recognizer.Proofs.Text.Display
import Recognizer.Trace.Log

/-!
# The lines of a log

A hook adds one line to a log or none, and the line depends on nothing that the log has written:
only on the hook, the settings and the activations that are open (`observe_eq`).  Which these are
does not depend on the settings (`openAfter`), so that two logs of the same hooks come to the same
activations at each of them, whatever they show.  Therefore the lines of a log are those of its
moments, the hooks each with the activations that are open before it (`lines_after`), and two logs
are compared line by line.
-/

namespace Recognizer

open Text (Highlight Plain Shows)

/-- The tokens that a tracer is handed. -/
def Hook.tokens : Hook → List Token
  | .enter _ start => [start]
  | .exit stop => stop.toList
  | .consume token | .error token => [token]
  | .alt _ | .retract => []

namespace TraceLog

/-! ## One line -/

/-- The open activations after a hook, innermost first. -/
def openAfter (names : RuleNames) (openRules : List String) : Hook → List String
  | .enter rule _ => activationName names rule :: openRules
  | .exit _ => openRules.tail
  | .alt _ | .consume _ | .error _ | .retract => openRules

/-- The number of activations around the line of a hook. -/
def level (openRules : List String) : Hook → Nat
  | .exit _ => openRules.tail.length
  | .enter _ _ | .alt _ | .consume _ | .error _ | .retract => openRules.length

/-- The line of a hook without its indentation, unless the verbosity leaves the line out. -/
def body? (names : RuleNames) (verbosity : Verbosity) (highlight : Highlight)
    (openRules : List String) : Hook → Option String
  | .enter rule start =>
    some ("enter " ++ highlight.paint .rule (activationName names rule) ++
      positionText verbosity highlight (some start))
  | .exit stop =>
    some ("exit " ++ highlight.paint .rule (openRules.head?.getD unknownActivation) ++
      positionText verbosity highlight stop)
  | .alt number =>
    some ("alt " ++ highlight.paint .rule
      (openRules.head?.getD unknownActivation ++ ":" ++ Text.uint32 number))
  | .consume token =>
    match verbosity with
    | .brief => none
    | .verbose | .full => some ("match " ++ tokenText verbosity highlight token)
  | .error token =>
    some (highlight.paint .error "error" ++ " " ++ tokenText verbosity highlight token)
  | .retract => some (highlight.paint .dim "retract")

/-- A hook with the activations that are open before it. -/
abbrev Moment := List String × Hook

/-- The line of a moment, if it has one. -/
def line? (names : RuleNames) (verbosity : Verbosity) (highlight : Highlight) (moment : Moment) :
    Option String :=
  (body? names verbosity highlight moment.1 moment.2).map (indented (level moment.1 moment.2))

variable {names : RuleNames} {openRules : List String} {hook : Hook} {hooks : List Hook}

/-- A hook adds its line, and it opens or ends an activation, or neither. -/
theorem observe_eq (log : TraceLog) (hook : Hook) :
    log.observe hook =
      { log with
        lines := log.lines ++
          (line? log.names log.verbosity log.highlight (log.openRules, hook)).toArray
        openRules := openAfter log.names log.openRules hook } := by
  rcases log with ⟨names, verbosity, highlight, lines, openRules⟩
  cases hook with
  | consume token =>
    cases verbosity <;> simp [observe, line?, body?, openAfter, addLine, level]
  | enter rule start | exit stop | alt number | error token | retract =>
    simp [observe, line?, body?, openAfter, addLine, level, currentName]

/-- The indentation of a line is two spaces for each level. -/
theorem toList_indentation (depth : Nat) :
    (String.join (List.replicate depth indentStep)).toList = List.replicate (2 * depth) ' ' := by
  have step : indentStep.toList = List.replicate 2 ' ' := by decide
  rw [String.toList_join, List.flatMap_replicate, step, List.flatten_replicate_replicate,
    Nat.mul_comm]

theorem blank_of_mem_indentation {depth : Nat} {c : Char}
    (member : c ∈ (String.join (List.replicate depth indentStep)).toList) : c = ' ' := by
  rw [toList_indentation] at member
  exact List.eq_of_mem_replicate member

/-! ## All lines -/

/-- The log after some hooks. -/
def after (log : TraceLog) (hooks : List Hook) : TraceLog :=
  hooks.foldl (fun log hook => log.observe hook) log

/-- The hooks, each with the activations that are open before it. -/
def moments (names : RuleNames) : List String → List Hook → List Moment
  | _, [] => []
  | openRules, hook :: hooks =>
    (openRules, hook) :: moments names (openAfter names openRules hook) hooks

theorem map_snd_moments (names : RuleNames) (openRules : List String) (hooks : List Hook) :
    (moments names openRules hooks).map Prod.snd = hooks := by
  induction hooks generalizing openRules with
  | nil => rfl
  | cons hook hooks ih => rw [moments, List.map_cons, ih]

theorem mem_of_mem_moments {moment : Moment} (member : moment ∈ moments names openRules hooks) :
    moment.2 ∈ hooks := by
  have isHook := List.mem_map_of_mem (f := Prod.snd) member
  rwa [map_snd_moments] at isHook

section OpenRules

variable {property : String → Prop}

theorem forall_mem_openAfter (ofOpen : ∀ name ∈ openRules, property name)
    (ofEntered : ∀ rule start, hook = .enter rule start → property (activationName names rule)) :
    ∀ name ∈ openAfter names openRules hook, property name := by
  cases hook with
  | enter rule start => exact List.forall_mem_cons.mpr ⟨ofEntered rule start rfl, ofOpen⟩
  | exit stop => exact fun name member => ofOpen name (List.mem_of_mem_tail member)
  | alt number | consume token | error token | retract => exact ofOpen

/-- What is true of the names of all rules that are entered is true of the names of all activations
that are open at some moment. -/
theorem forall_open_of_mem_moments (ofOpen : ∀ name ∈ openRules, property name)
    (ofEntered : ∀ rule start, .enter rule start ∈ hooks → property (activationName names rule)) :
    ∀ moment ∈ moments names openRules hooks, ∀ name ∈ moment.1, property name := by
  induction hooks generalizing openRules with
  | nil => exact List.forall_mem_nil _
  | cons hook hooks ih =>
    have ofOpenAfter : ∀ name ∈ openAfter names openRules hook, property name :=
      forall_mem_openAfter ofOpen fun rule start entered =>
        ofEntered rule start (entered ▸ List.mem_cons_self)
    exact List.forall_mem_cons.mpr ⟨ofOpen, ih ofOpenAfter fun rule start later =>
      ofEntered rule start (List.mem_cons_of_mem hook later)⟩

theorem forall_currentName (ofOpen : ∀ name ∈ openRules, property name)
    (ofUnknown : property unknownActivation) :
    property (openRules.head?.getD unknownActivation) := by
  rcases openRules with - | ⟨name, outer⟩
  · exact ofUnknown
  · exact ofOpen name List.mem_cons_self

end OpenRules

theorem consists_activationName {property : Char → Prop} {rule : RuleIndex}
    (printable : ∀ c, Text.Printable c → property c)
    (own : ∀ name ∈ names rule, Text.Consists property name) :
    Text.Consists property (activationName names rule) := by
  unfold activationName
  rcases named : names rule with - | name
  · exact (Text.consists_append.mpr ⟨by decide, Text.printable_uint32 rule⟩).imp printable
  · exact own name named

theorem lines_after (log : TraceLog) (hooks : List Hook) :
    (log.after hooks).lines.toList = log.lines.toList ++
      (moments log.names log.openRules hooks).filterMap
        (line? log.names log.verbosity log.highlight) := by
  induction hooks generalizing log with
  | nil => simp [after, moments]
  | cons hook hooks ih =>
    have step : log.after (hook :: hooks) = (log.observe hook).after hooks := rfl
    rw [step, ih, observe_eq, moments, List.filterMap_cons]
    rcases line? log.names log.verbosity log.highlight (log.openRules, hook) with - | line <;> simp

/-- The lines of a whole log. -/
def linesOf (names : RuleNames) (config : Config) (hooks : List Hook) : List String :=
  ((start names config).after hooks).lines.toList

theorem linesOf_eq (names : RuleNames) (config : Config) (hooks : List Hook) :
    linesOf names config hooks =
      (moments names [] hooks).filterMap (line? names config.verbosity config.highlight) :=
  (lines_after _ _).trans (List.nil_append _)

/-! ## Lines with and without colours -/

/-- No rule has a name with an escape. -/
def PlainNames (names : RuleNames) : Prop :=
  ∀ rule, ∀ name ∈ names rule, Plain name

/-- No token of the hook has a text with an escape. -/
def PlainTokens (hook : Hook) : Prop :=
  ∀ token ∈ hook.tokens, ∀ text ∈ token.text, Plain text

theorem plain_activationName (plain : PlainNames names) (rule : RuleIndex) :
    Plain (activationName names rule) :=
  consists_activationName Text.ne_escapeMark_of_printable (plain rule)

theorem plain_indentation (depth : Nat) :
    Plain (String.join (List.replicate depth indentStep)) :=
  fun _ member => blank_of_mem_indentation member ▸ by decide

theorem shows_positionText (verbosity : Verbosity) (highlight : Highlight) (token : Option Token) :
    Shows (positionText verbosity highlight token) (positionText verbosity .off token) := by
  have nothing : Shows "" "" := Text.shows_of_plain (by decide)
  rcases token with - | token
  · exact nothing
  · have position : Plain ("@" ++ Text.int32 token.index) :=
      Text.consists_append.mpr
        ⟨by decide, Text.plain_of_printable (Text.printable_int32 token.index)⟩
    have shown := (Text.shows_of_plain (by decide : Plain " ")).append
      (Text.shows_paint highlight .dim position)
    cases verbosity with
    | brief => exact nothing
    | verbose | full => exact shown

theorem shows_tokenText (verbosity : Verbosity) (highlight : Highlight) {token : Token}
    (plain : ∀ text ∈ token.text, Plain text) :
    Shows (tokenText verbosity highlight token) (tokenText verbosity .off token) := by
  have printable := Text.ne_escapeMark_of_printable
  have type : Plain token.typeText := Text.plain_of_printable token.printable_typeText
  cases verbosity with
  | brief => exact Text.shows_of_plain type
  | verbose =>
    have text := Text.consists_escape printable (Token.consists_displayText printable plain)
    exact ((Text.shows_of_plain type).append (Text.shows_of_plain (by decide))).append
      (Text.shows_paint highlight .token text)
  | full => exact Text.shows_paint highlight .token (Token.consists_describe printable plain)

/-- A highlighted line displays the line without highlighting. -/
theorem shows_body? (plain : PlainNames names) (plainOpen : ∀ name ∈ openRules, Plain name)
    (plainTokens : PlainTokens hook) (verbosity : Verbosity) (highlight : Highlight) :
    Option.Rel Shows (body? names verbosity highlight openRules hook)
      (body? names verbosity .off openRules hook) := by
  have keyword {text : String} (plain : Plain text) : Shows text text := Text.shows_of_plain plain
  have current : Plain _ := forall_currentName plainOpen (by decide)
  cases hook with
  | enter rule start =>
    have name := Text.shows_paint highlight .rule (plain_activationName plain rule)
    exact .some (((keyword (by decide)).append name).append (shows_positionText _ _ _))
  | exit stop =>
    have name := Text.shows_paint highlight .rule current
    exact .some (((keyword (by decide)).append name).append (shows_positionText _ _ _))
  | alt number =>
    have label : Plain (openRules.head?.getD unknownActivation ++ ":" ++ Text.uint32 number) := by
      rw [Plain, Text.consists_append, Text.consists_append]
      exact ⟨⟨current, by decide⟩, Text.plain_of_printable (Text.printable_uint32 number)⟩
    exact .some ((keyword (by decide)).append (Text.shows_paint highlight .rule label))
  | consume token =>
    have text := shows_tokenText verbosity highlight (plainTokens token List.mem_cons_self)
    cases verbosity with
    | brief => exact .none
    | verbose | full => exact .some ((keyword (by decide)).append text)
  | error token =>
    have text := shows_tokenText verbosity highlight (plainTokens token List.mem_cons_self)
    have mark := Text.shows_paint highlight .error (by decide : Plain "error")
    exact .some ((mark.append (keyword (by decide))).append text)
  | retract => exact .some (Text.shows_paint highlight .dim (by decide))

theorem shown_indented {fragment text : String} (shows : Shows fragment text) (depth : Nat) :
    Text.shown (indented depth fragment) = indented depth text :=
  ((Text.shows_of_plain (plain_indentation depth)).append shows).shown_eq

theorem shown_line? (plain : PlainNames names) {moment : Moment}
    (plainOpen : ∀ name ∈ moment.1, Plain name) (plainTokens : PlainTokens moment.2)
    (verbosity : Verbosity) (highlight : Highlight) :
    (line? names verbosity highlight moment).map Text.shown =
      line? names verbosity .off moment := by
  have shows := shows_body? plain plainOpen plainTokens verbosity highlight
  unfold line?
  generalize body? names verbosity highlight moment.1 moment.2 = coloured at shows ⊢
  generalize body? names verbosity .off moment.1 moment.2 = colourless at shows ⊢
  cases shows with
  | some shows => exact congrArg some (shown_indented shows _)
  | none => rfl

theorem shown_linesOf (plain : PlainNames names) (plainTokens : ∀ hook ∈ hooks, PlainTokens hook)
    (config : Config) :
    (linesOf names config hooks).map Text.shown =
      linesOf names { config with highlight := .off } hooks := by
  rw [linesOf_eq, linesOf_eq, List.map_filterMap]
  refine List.filterMap_congr fun moment member => ?_
  have plainOpen : ∀ name ∈ moment.1, Plain name :=
    forall_open_of_mem_moments (List.forall_mem_nil _)
      (fun rule _ _ => plain_activationName plain rule) moment member
  exact shown_line? plain plainOpen (plainTokens moment.2 (mem_of_mem_moments member)) _ _

/-! ## Brief and verbose lines -/

/-- The line says behind its indentation that a token is matched. -/
def isMatchLine (line : String) : Bool :=
  "match ".toList.isPrefixOf (line.toList.dropWhile (· == ' '))

theorem isMatchLine_indented (depth : Nat) (body : String) :
    isMatchLine (indented depth body) = isMatchLine body := by
  have blank : ∀ c ∈ (String.join (List.replicate depth indentStep)).toList, c == ' ' :=
    fun _ member => beq_iff_eq.mpr (blank_of_mem_indentation member)
  unfold isMatchLine indented
  rw [String.toList_append, List.dropWhile_append_of_pos blank]

/-- A brief line begins the verbose one. -/
def Begins (brief verbose : String) : Prop :=
  brief.toList <+: verbose.toList

theorem begins_append (brief rest : String) : Begins brief (brief ++ rest) := by
  unfold Begins
  rw [String.toList_append]
  exact List.prefix_append _ _

theorem Begins.append_left {brief verbose : String} (begins : Begins brief verbose)
    (start : String) : Begins (start ++ brief) (start ++ verbose) := by
  unfold Begins
  rw [String.toList_append, String.toList_append]
  exact (List.prefix_append_right_inj _).mpr begins

theorem begins_positionText (token : Option Token) :
    Begins (positionText .brief .off token) (positionText .verbose .off token) := by
  rcases token with - | token <;> exact List.nil_prefix

theorem begins_tokenText (token : Token) :
    Begins (tokenText .brief .off token) (tokenText .verbose .off token) := by
  unfold tokenText
  dsimp only
  rw [String.append_assoc]
  exact begins_append _ _

/-- A line that begins with another letter, and not with a blank, is not that of a match. -/
theorem isMatchLine_append {keyword : String} {c : Char} (first : keyword.toList.head? = some c)
    (other : c ≠ ' ' ∧ c ≠ 'm') (rest : String) : isMatchLine (keyword ++ rest) = false := by
  obtain ⟨cs, isKeyword⟩ := List.head?_eq_some_iff.mp first
  have notBlank : ¬ (c == ' ') = true := mt LawfulBEq.eq_of_beq other.1
  unfold isMatchLine
  rw [String.toList_append, isKeyword, List.cons_append, List.dropWhile_cons, if_neg notBlank]
  refine Bool.eq_false_iff.mpr fun begins => other.2 ?_
  exact (List.cons_prefix_cons.mp (List.isPrefixOf_iff_prefix.mp begins)).1.symm

/-- Of the verbose lines, all but those of matches are among the brief ones. -/
theorem begins_body? (names : RuleNames) (openRules : List String) (hook : Hook) :
    Option.Rel Begins (body? names .brief .off openRules hook)
      ((body? names .verbose .off openRules hook).filter fun line => !isMatchLine line) := by
  have kept {brief verbose : String} (begins : Begins brief verbose)
      (other : isMatchLine verbose = false) :
      Option.Rel Begins (some brief) ((some verbose).filter fun line => !isMatchLine line) := by
    rw [Option.filter_some, if_pos (by rw [other]; rfl)]
    exact .some begins
  cases hook with
  | enter rule start =>
    refine kept ((begins_positionText (some start)).append_left _) ?_
    rw [String.append_assoc]
    exact isMatchLine_append rfl (by decide) _
  | exit stop =>
    refine kept ((begins_positionText stop).append_left _) ?_
    rw [String.append_assoc]
    exact isMatchLine_append rfl (by decide) _
  | alt number => exact kept List.prefix_rfl (isMatchLine_append rfl (by decide) _)
  | consume token =>
    have isMatch : isMatchLine ("match " ++ tokenText .verbose .off token) = true := by
      unfold isMatchLine
      rw [String.toList_append]
      rfl
    rw [body?, body?, Option.filter_some, if_neg (by rw [isMatch]; decide)]
    exact .none
  | error token =>
    refine kept ((begins_tokenText token).append_left _) ?_
    rw [String.append_assoc]
    exact isMatchLine_append rfl (by decide) _
  | retract => exact kept List.prefix_rfl (by decide)

theorem begins_line? (names : RuleNames) (moment : Moment) :
    Option.Rel Begins (line? names .brief .off moment)
      ((line? names .verbose .off moment).filter fun line => !isMatchLine line) := by
  have begins := begins_body? names moment.1 moment.2
  unfold line?
  rw [Option.filter_map]
  have same : (fun line => !isMatchLine line) ∘ indented (level moment.1 moment.2) =
      fun line => !isMatchLine line := by
    funext line
    exact congrArg not (isMatchLine_indented _ line)
  rw [same]
  generalize body? names .brief .off moment.1 moment.2 = brief at begins ⊢
  generalize (body? names .verbose .off moment.1 moment.2).filter _ = verbose at begins ⊢
  cases begins with
  | some begins => exact .some (begins.append_left _)
  | none => exact .none

theorem begins_linesOf (names : RuleNames) (buildsTree : Bool) (hooks : List Hook) :
    List.Forall₂ Begins (linesOf names ⟨buildsTree, .brief, .off⟩ hooks)
      ((linesOf names ⟨buildsTree, .verbose, .off⟩ hooks).filter fun line =>
        !isMatchLine line) := by
  have same : List.Forall₂ Eq (moments names [] hooks) (moments names [] hooks) :=
    List.forall₂_refl _
  rw [linesOf_eq, linesOf_eq, List.filter_filterMap]
  refine List.rel_filterMap ?_ same
  rintro moment _ rfl
  exact begins_line? names moment

/-! ## Both settings -/

/-- For all hooks and rule names, two logs with different settings differ in what a line shows only.
If no rule name and no token has an escape of its own, the lines of a highlighted log are displayed
as those of one without highlighting, at every verbosity. Without highlighting, the brief log has
one line for each line of the verbose one that is not a match, in order, and begins it. -/
theorem settings_only_decorate (names : RuleNames) (hooks : List Hook) :
    (PlainNames names → (∀ hook ∈ hooks, PlainTokens hook) → ∀ buildsTree verbosity,
      (linesOf names ⟨buildsTree, verbosity, .on⟩ hooks).map Text.shown =
        linesOf names ⟨buildsTree, verbosity, .off⟩ hooks) ∧
      ∀ buildsTree, List.Forall₂ (fun brief verbose => brief.toList <+: verbose.toList)
        (linesOf names ⟨buildsTree, .brief, .off⟩ hooks)
        ((linesOf names ⟨buildsTree, .verbose, .off⟩ hooks).filter fun line =>
          !isMatchLine line) :=
  ⟨fun plain plainTokens _ _ => shown_linesOf plain plainTokens _,
    fun buildsTree => begins_linesOf names buildsTree hooks⟩

/-- A rule that calls another one, with a rejected token that is taken back, and an exit of a rule
that was never entered. -/
def nestedRules : List Hook :=
  let name : Token := ⟨1, 0, some "match ", 1, 0⟩
  let mark : Token := ⟨2, 1, some "?", 1, 6⟩
  [.enter 0 name, .enter 1 name, .alt 2, .consume name, .error mark, .retract, .exit (some name),
    .exit none, .exit none]

theorem lines_of_nestedRules :
    let names := RuleNames.ofList ["prog", "match "]
    (linesOf names ⟨true, .verbose, .on⟩ nestedRules)[4]? =
        some "    \x1b[31merror\x1b[0m <2> \x1b[32m?\x1b[0m" ∧
      (linesOf names ⟨true, .verbose, .on⟩ nestedRules).map Text.shown =
        ["enter prog @0", "  enter match  @0", "    alt match :2", "    match <1> match ",
          "    error <2> ?", "    retract", "  exit match  @0", "exit prog", "exit ?"] ∧
      List.Forall₂ (fun brief verbose => brief.toList <+: verbose.toList)
        ["enter prog", "  enter match ", "    alt match :2", "    error <2>", "    retract",
          "  exit match ", "exit prog", "exit ?"]
        ["enter prog @0", "  enter match  @0", "    alt match :2", "    error <2> ?", "    retract",
          "  exit match  @0", "exit prog", "exit ?"] := by
  intro names
  have plain : PlainNames names := by
    intro rule name named
    have all : ∀ name ∈ ["prog", "match "], Plain name := by decide
    exact all name (List.mem_of_getElem? named)
  have plainTokens : ∀ hook ∈ nestedRules, PlainTokens hook := by
    unfold PlainTokens
    decide
  obtain ⟨colours, verbosity⟩ := settings_only_decorate names nestedRules
  have verbose : linesOf names ⟨true, .verbose, .off⟩ nestedRules =
      ["enter prog @0", "  enter match  @0", "    alt match :2", "    match <1> match ",
        "    error <2> ?", "    retract", "  exit match  @0", "exit prog", "exit ?"] := by
    decide +kernel
  have brief : linesOf names ⟨true, .brief, .off⟩ nestedRules =
      ["enter prog", "  enter match ", "    alt match :2", "    error <2>", "    retract",
        "  exit match ", "exit prog", "exit ?"] := by
    decide +kernel
  refine ⟨by decide +kernel, (colours plain plainTokens true .verbose).trans verbose, ?_⟩
  have begins := verbosity true
  rw [verbose, brief] at begins
  exact begins

end TraceLog

end Recognizer
