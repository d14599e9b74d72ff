import Recognizer.Config
import Recognizer.Names.RuleNames
import Recognizer.Text.Sequence
import Recognizer.Trace.Hook

/-!
# Construction logs

A `TraceLog` turns hooks into lines of text, each indented by one step for every activation that is
open at that moment. The line that ends an activation stands at the level of the line that began it.
-/

namespace Recognizer

open Text

/-- The log of a construction, with the activations that are open. -/
structure TraceLog where
  names : RuleNames
  verbosity : Verbosity
  highlight : Highlight
  /-- The lines of the log, newest last. -/
  lines : Array String
  /-- The names of the open activations, innermost first. -/
  openRules : List String

namespace TraceLog

/-- The indentation of one level. -/
def indentStep : String := "  "

/-- The name of an activation that was never begun. -/
def unknownActivation : String := "?"

/-- The empty log for some rule names and settings. -/
def start (names : RuleNames) (config : Config) : TraceLog :=
  ⟨names, config.verbosity, config.highlight, #[], []⟩

/-- The name of a rule, or its index if it has none. -/
def activationName (names : RuleNames) (rule : RuleIndex) : String :=
  (names rule).getD ("rule_" ++ Text.uint32 rule)

/-- A line at the level of `depth` open activations. -/
def indented (depth : Nat) (body : String) : String :=
  String.join (List.replicate depth indentStep) ++ body

/-- A token as the verbosity shows it. -/
def tokenText (verbosity : Verbosity) (highlight : Highlight) (token : Token) : String :=
  match verbosity with
  | .brief => token.typeText
  | .verbose =>
    token.typeText ++ " " ++ highlight.paint .token (Text.escape false token.displayText)
  | .full => highlight.paint .token token.describe

/-- The position of a token after a blank, if there is a token and the verbosity shows it. -/
def positionText (verbosity : Verbosity) (highlight : Highlight) : Option Token → String
  | none => ""
  | some token =>
    match verbosity with
    | .brief => ""
    | .verbose | .full => " " ++ highlight.paint .dim ("@" ++ Text.int32 token.index)

def addLine (log : TraceLog) (body : String) : TraceLog :=
  { log with lines := log.lines.push (indented log.openRules.length body) }

def currentName (log : TraceLog) : String :=
  log.openRules.head?.getD unknownActivation

/-- The log after a hook. -/
def observe (hook : Hook) (log : TraceLog) : TraceLog :=
  match hook with
  | .enter rule start =>
    let name := activationName log.names rule
    let log := log.addLine <|
      "enter " ++ log.highlight.paint .rule name ++
        positionText log.verbosity log.highlight (some start)
    { log with openRules := name :: log.openRules }
  | .exit stop =>
    let name := log.currentName
    let log := { log with openRules := log.openRules.tail }
    log.addLine <|
      "exit " ++ log.highlight.paint .rule name ++ positionText log.verbosity log.highlight stop
  | .alt number =>
    log.addLine <|
      "alt " ++ log.highlight.paint .rule (log.currentName ++ ":" ++ Text.uint32 number)
  | .consume token =>
    match log.verbosity with
    | .brief => log
    | .verbose | .full =>
      log.addLine ("match " ++ tokenText log.verbosity log.highlight token)
  | .error token =>
    log.addLine <|
      log.highlight.paint .error "error" ++ " " ++ tokenText log.verbosity log.highlight token
  | .retract => log.addLine (log.highlight.paint .dim "retract")

instance : Tracer TraceLog := ⟨observe⟩

def text (log : TraceLog) : String :=
  Text.joined "\n" log.lines.toList

end TraceLog

end Recognizer
