import Calculator.History.Entry

/-!
# Options of the console

The console is started with options, each given at most once as a word with its value after it or
after an equals sign, and with at most one expression. After `--` a word is an expression even if it
starts with a hyphen.
-/

namespace Calculator

/-- How the console is started. -/
structure Options where
  /-- The calculator to start in, if it is not the scientific one. -/
  mode : Option Mode := none
  /-- The base to start in, if it is not the one of the settings. -/
  base : Option Radix := none
  /-- Whether results are printed in JSON. -/
  json : Bool := false
  /-- The expression to calculate; without one, lines are taken from the input. -/
  expression : Option Text := none
  /-- The file of the settings. -/
  config : Option Text := none
  /-- The file of the history. -/
  archive : Option Text := none

namespace Options

/-- The options with a value for the first time, if it is not there yet. -/
def once {α : Type} (old new : Option α) : Option (Option α) :=
  if old.isSome || new.isNone then none else some new

/-- The options with one more expression. -/
def withExpression? (options : Options) (s : Text) : Option Options := do
  return { options with expression := ← once options.expression (some s) }

/-- The options with one more value for the option of a name. -/
def with? (options : Options) (name value : Text) : Option Options := do
  if name = "--mode" then
    let mode := [Mode.engineering, .programmer].find? (·.tag == value)
    return { options with mode := ← once options.mode mode }
  else if name = "--base" then
    let base := Radix.all.find? (·.name.map Char.toLower == value)
    return { options with base := ← once options.base base }
  else if name = "--config" then
    return { options with config := ← once options.config (some value) }
  else if name = "--history" then
    return { options with archive := ← once options.archive (some value) }
  else none

/-- Reads words on top of options already read. -/
def parseFrom (options : Options) : List Text → Option Options
  | [] => some options
  | word :: rest =>
    if word = "--" then
      match rest with
      | [] => some options
      | [expression] => options.withExpression? expression
      | _ => none
    else if word = "--json" then
      if options.json then none else parseFrom { options with json := true } rest
    else
      match word, word.dropWhile (· != '='), rest with
      | '-' :: _ :: _, _ :: value, rest =>
        (options.with? (word.takeWhile (· != '=')) value).bind (parseFrom · rest)
      | '-' :: _ :: _, [], value :: rest => (options.with? word value).bind (parseFrom · rest)
      | '-' :: _ :: _, [], [] => none
      | _, _, rest => (options.withExpression? word).bind (parseFrom · rest)

/-- The options that the words of a command line give. -/
def parse? (words : List Text) : Option Options := parseFrom {} words

end Options

end Calculator
