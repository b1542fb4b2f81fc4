/-
  MachineList.Command.Arguments — what a command line asks for.

  A command takes one option with a value, after a blank or an equals sign, and at most one
  operand. Help and version win over everything that stands behind them. An option given
  twice, an empty value and anything unknown make the whole line wrong.
-/

namespace MachineList.Command

inductive Topic where
  | program
  | init
  | replay
  | help
  deriving DecidableEq, Repr

inductive Invocation where
  | help (topic : Topic)
  | version
  | init (path : Option String)
  /-- Replays the scenario of a directory under the settings of a path. -/
  | replay (dir : String) (settings : Option String)
  deriving DecidableEq, Repr

structure Values where
  option : Option String
  operand : Option String

def isOption (word : String) : Bool :=
  word.toList.head? = some '-' && word ≠ "-"

def fill (old : Option String) (value : String) : Option (Option String) :=
  if old.isSome ∨ value = "" then none else some (some value)

def splitValue (word : String) : String × Option String :=
  let name := word.toList.takeWhile fun c => c ≠ '='
  match word.toList.dropWhile fun c => c ≠ '=' with
  | _ :: value => (String.ofList name, some (String.ofList value))
  | [] => (String.ofList name, none)

def hasLetter (letter : Char) (word : String) : Bool :=
  word.toList.take 2 = ['-', letter]

/-- Reads the words behind a command; `none` in the answer asks for help. -/
def readWords (option : String) (takesOperand : Bool) : Values → List String → Option (Option Values)
  | vs, [] => some (some vs)
  | vs, word :: rest =>
    if word = "--" then
      match rest with
      | [] => some (some vs)
      | [operand] => if takesOperand then (fill vs.operand operand).map fun o => some { vs with operand := o } else none
      | _ => none
    else if word = "--help" ∨ hasLetter 'h' word then some none
    else if isOption word then
      match splitValue word, rest with
      | (name, some value), rest =>
        if name = option then (fill vs.option value).bind fun o => readWords option takesOperand { vs with option := o } rest
        else none
      | (name, none), value :: rest =>
        if name = option ∧ !isOption value then
          (fill vs.option value).bind fun o => readWords option takesOperand { vs with option := o } rest
        else none
      | (_, none), [] => none
    else if takesOperand then
      (fill vs.operand word).bind fun o => readWords option takesOperand { vs with operand := o } rest
    else none

def initOf? (words : List String) : Option Invocation :=
  match readWords "--path" false ⟨none, none⟩ words with
  | some (some vs) => some (.init vs.option)
  | some none => some (.help .init)
  | none => none

def replayOf? (words : List String) : Option Invocation :=
  match readWords "--config" true ⟨none, none⟩ words with
  | some (some ⟨settings, some dir⟩) => some (.replay dir settings)
  | some (some ⟨_, none⟩) => none
  | some none => some (.help .replay)
  | none => none

def topicOf? : List String → Option Topic
  | [] => some .program
  | ["init"] => some .init
  | ["replay"] => some .replay
  | ["help"] => some .help
  | _ => none

def Invocation.ofWords? : List String → Option Invocation
  | [] => none
  | word :: rest =>
    if word = "init" then initOf? rest
    else if word = "replay" then replayOf? rest
    else if word = "help" then (topicOf? rest).map .help
    else if word = "--help" ∨ hasLetter 'h' word then some (.help .program)
    else if word = "--version" ∨ hasLetter 'V' word then some .version
    else none

end MachineList.Command
