import TestLauncher.DiscoveryRequest
import TestLauncher.Journal
import TestLauncher.Settings.Environment
import TestLauncher.Settings.JsonText

/-! # Settings

    Settings are read from variables, each with a usual value where there is no variable.
    A variable that cannot be read at all is a fault at once; values out of range are
    collected and reported together. -/

namespace TestLauncher

/-- How log records are written. -/
inductive LogFormat where
  | json
  | text
deriving DecidableEq, Repr

/-- The word for a log format. -/
def LogFormat.word : LogFormat → String
  | json => "json"
  | text => "text"

/-- The settings of a launcher. -/
structure Settings where
  /-- The group of entry points that provide engines. -/
  engineGroup : String := "quiver.engines"
  /-- The group of entry points that provide listeners. -/
  listenerGroup : String := "quiver.listeners"
  /-- Whether the listeners of that group are registered. -/
  autoRegister : Bool := true
  /-- Whether an engine that returns no root is a fault. -/
  strict : Bool := false
  /-- The default parameters of every request. -/
  parameters : OrderedMap String String := ∅
  logLevel : LogLevel := .info
  logFormat : LogFormat := .text

namespace Settings

/-- The words for true. -/
def trueWords : List String := ["1", "on", "t", "true", "y", "yes"]

/-- The words for false. -/
def falseWords : List String := ["0", "off", "f", "false", "n", "no"]

/-- The truth value of a word, whatever the case of its letters. -/
def readSwitch? (text : String) : Option Bool :=
  let word := text.map Char.toLower
  if word ∈ trueWords then some true
  else if word ∈ falseWords then some false
  else none

/-- The name of a group, without the white space around it. -/
def readGroup? (text : String) : Option String :=
  if Text.isBlank text then none else some (Text.trim text)

/-- The level of a word. -/
def readLevel? (text : String) : Option LogLevel :=
  [LogLevel.debug, .info, .warning, .error, .critical].find? fun l => l.word = text

/-- The format of a word. -/
def readFormat? (text : String) : Option LogFormat :=
  [LogFormat.json, .text].find? fun f => f.word = text

/-- The parameters in an object of texts; no key is blank. -/
def readParameters? (v : JsonValue) : Option (OrderedMap String String) := do
  let entries ← v.texts?
  if entries.any fun e => Text.isBlank e.1 then none
  return OrderedMap.ofList entries

/-- The name of the variable of a setting. -/
def variableOf (field : String) : String := "quiver_" ++ field

/-- The names of the settings. -/
def parametersField : String := "configuration_parameters"

/-- The object of parameters in an environment, if it is there and can be read. -/
def parametersIn (env : Environment) : Except Fault (Option JsonValue) :=
  match env.get? (variableOf parametersField) with
  | none => .ok none
  | some text =>
    match JsonValue.read? text with
    | none => .error (.unreadableSetting parametersField)
    | some v => .ok (some v)

/-- A setting, or the name of one whose value is out of range. -/
abbrev Reading (α : Type) := Except String α

/-- The value of a setting: the usual one, unless there is a variable. -/
def reading {α β : Type} (field : String) (usual : α) (read? : β → Option α) :
    Option β → Reading α
  | none => .ok usual
  | some b =>
    match read? b with
    | none => .error field
    | some a => .ok a

/-- The name of a setting whose value is out of range. -/
def complaint {α : Type} : Reading α → List String
  | .ok _ => []
  | .error field => [field]

/-- The settings in an environment and in a file; where both have a variable the environment
counts, and their objects of parameters are joined. -/
def load (env file : Environment) : Except Fault Settings := do
  let above ← parametersIn env
  let below ← parametersIn file
  let parameters := match below, above with
    | some b, some a => some (b.overlay a)
    | b, a => a.or b
  let text (field : String) : Option String :=
    (env.get? (variableOf field)).or (file.get? (variableOf field))
  let usual : Settings := {}
  let auto := reading "auto_register_listeners" usual.autoRegister readSwitch?
    (text "auto_register_listeners")
  let defaults := reading parametersField usual.parameters readParameters? parameters
  let engines := reading "engine_entry_point_group" usual.engineGroup readGroup?
    (text "engine_entry_point_group")
  let listeners := reading "listener_entry_point_group" usual.listenerGroup readGroup?
    (text "listener_entry_point_group")
  let format := reading "log_format" usual.logFormat readFormat? (text "log_format")
  let level := reading "log_level" usual.logLevel readLevel? (text "log_level")
  let strict := reading "strict_engine_contracts" usual.strict readSwitch?
    (text "strict_engine_contracts")
  match auto, defaults, engines, listeners, format, level, strict with
  | .ok autoRegister, .ok parameters, .ok engineGroup, .ok listenerGroup, .ok logFormat,
      .ok logLevel, .ok strict =>
    return { engineGroup, listenerGroup, autoRegister, strict, parameters, logLevel, logFormat }
  | _, _, _, _, _, _, _ =>
    throw <| .invalidSettings <|
      complaint auto ++ complaint defaults ++ complaint engines ++ complaint listeners ++
        complaint format ++ complaint level ++ complaint strict

/-- A request under construction, with the default parameters. -/
def requestBuilder (s : Settings) : RequestBuilder := { defaults := s.parameters }

end Settings

/-- How logging is set up: from which level on, in which layout, and to how many places. -/
structure LogSetup where
  level : Int
  layout : String
  handlers : Nat := 1
deriving DecidableEq, Repr

namespace LogSetup

/-- The layouts of log lines. -/
def layoutOf (format : String) : String :=
  if format = LogFormat.json.word then
    "\x7b\"time\": \"%(asctime)s\", \"level\": \"%(levelname)s\", " ++
      "\"logger\": \"%(name)s\", \"message\": \"%(message)s\"\x7d"
  else "%(asctime)s - %(name)s - %(levelname)s - %(message)s"

/-- Further words for levels. -/
def otherLevels : List (String × Int) :=
  [("NOTSET", 0), ("WARN", LogLevel.warning.number), ("FATAL", LogLevel.critical.number)]

/-- The number of a level; an unknown word stands for the usual one. -/
def levelOf (word : String) : Int :=
  match Settings.readLevel? word with
  | some l => l.number
  | none => (otherLevels.lookup word).getD LogLevel.info.number

/-- The setup for a word for the level and a word for the format. -/
def ofWords (level format : String) : LogSetup := ⟨levelOf level, layoutOf format, 1⟩

end LogSetup

end TestLauncher
