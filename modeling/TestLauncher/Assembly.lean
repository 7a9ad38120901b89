import TestLauncher.Launcher
import TestLauncher.Settings.Basic

/-! # Assembling launchers

    A launcher is put together from settings.  Engines and listeners that are not handed
    in come from entry points: names in groups, each leading to an attribute of a module
    of plug-ins.  An entry point that fails with an exception, or leads to something else
    than its group is for, is a fault that names it. -/

namespace TestLauncher

/-- What an attribute of a plug-in module is. -/
inductive Plugin (κ ω : Type) where
  | engine (e : Engine κ)
  | listener (l : Listener ω)
  | other
  /-- A class that cannot be instantiated. -/
  | faulty (f : Fault)

/-- A name, and where it leads: a module and an attribute with a colon between. -/
structure EntryPoint where
  name : String
  value : String

/-- What is installed: groups of entry points, and modules of plug-ins. -/
structure Installation (κ ω : Type) where
  groups : OrderedMap String (List EntryPoint) := ∅
  modules : OrderedMap String (OrderedMap String (Plugin κ ω)) := ∅

/-- What an entry point group is for. -/
inductive PluginRole where
  | engine
  | listener
deriving DecidableEq, Repr

/-- The word for a role. -/
def PluginRole.word : PluginRole → String
  | engine => "TestEnginePort"
  | listener => "ExecutionListener"

namespace Installation

variable {κ ω ρ : Type}

/-- The logger of assembly. -/
def logger : String := "quiver.factory"

/-- What an entry point leads to. -/
def find (i : Installation κ ω) (p : EntryPoint) : Except Fault (Plugin κ ω) :=
  let module := String.ofList (p.value.toList.takeWhile (· ≠ ':'))
  let attr := String.ofList ((p.value.toList.dropWhile (· ≠ ':')).drop 1)
  match i.modules.get? module with
  | none => .error (.unknownModule module)
  | some attributes =>
    if attr = "" then .ok .other
    else
      match attributes.get? attr with
      | none => .error (.unknownAttribute ("module " ++ Text.quote module) attr)
      | some (.faulty f) => .error f
      | some plugin => .ok plugin

/-- What an entry point leads to; an exception on the way is told as the entry point's fault. -/
def load (i : Installation κ ω) (p : EntryPoint) : Except Fault (Plugin κ ω) :=
  match i.find p with
  | .ok plugin => .ok plugin
  | .error f => .error (if f.isException then .unloadable p.name p.value f.message else f)

/-- The entry points of a group. -/
def group (i : Installation κ ω) (name : String) : List EntryPoint := i.groups.getD name []

/-- The engine an entry point leads to. -/
def loadEngine (i : Installation κ ω) (p : EntryPoint) : Except Fault (Engine κ) := do
  match ← i.load p with
  | .engine e => return e
  | _ => throw (.wrongRole p.name p.value PluginRole.engine.word)

/-- The listener an entry point leads to. -/
def loadListener (i : Installation κ ω) (p : EntryPoint) : Except Fault (Listener ω) := do
  match ← i.load p with
  | .listener l => return l
  | _ => throw (.wrongRole p.name p.value PluginRole.listener.word)

/-- Writes to the journal. -/
def note (message : String) : Steps Journal Unit :=
  modify fun j => j.write (LogLevel.info.record logger message)

/-- The engines of a group. -/
def loadEngines (i : Installation κ ω) (groupName : String) : Steps Journal (List (Engine κ)) := do
  let engines ← Steps.ofExcept ((i.group groupName).mapM i.loadEngine)
  note ("Loaded " ++ toString engines.length ++ " engine(s) from entry point group '" ++
    groupName ++ "'")
  return engines

/-- The listeners of a group. -/
def loadListeners (i : Installation κ ω) (groupName : String) :
    Steps Journal (List (Listener ω)) := do
  let listeners ← Steps.ofExcept ((i.group groupName).mapM i.loadListener)
  note ("Loaded " ++ toString listeners.length ++ " listener(s) from entry point group '" ++
    groupName ++ "'")
  return listeners

/-- The engines handed in, or those of a group. -/
def enginesOr (i : Installation κ ω) (groupName : String) :
    Option (List (Option (Engine κ))) → Steps Journal (List (Option (Engine κ)))
  | some engines => return engines
  | none => do return (← i.loadEngines groupName).map some

/-- The launcher for some settings, with the engines and listeners handed in and those
installed. -/
def assemble (i : Installation κ ω) (s : Settings) (engines? : Option (List (Option (Engine κ))))
    (listeners : List (Option (Listener ω))) (resolver : SuiteResolver ρ) :
    Steps Journal (Launcher κ ω ρ) := do
  let engines ← i.enginesOr s.engineGroup engines?
  let launcher ← Launcher.create (some engines) (some resolver) s.strict
  note ("Launcher initialized with engines: " ++
    String.intercalate ", " (launcher.engines.map Engine.id))
  let installed ← if s.autoRegister then i.loadListeners s.listenerGroup else pure []
  let all := listeners ++ installed.map some
  if all.isEmpty then return launcher
  else Steps.ofExcept (launcher.register all)

end Installation

end TestLauncher
