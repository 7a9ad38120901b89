import TestLauncher.UniqueId
import TestLauncher.Text.Dotted

/-! # Selectors

    A selector names what a request is about: a class by its dotted name, a module, one
    method of a class, or a node by its unique id.  No name in a selector is blank. -/

namespace TestLauncher

/-- What a discovery request selects. -/
inductive Selector where
  | ofClass (name : Text.NonBlank)
  | ofModule (name : Text.NonBlank)
  | ofMethod (className methodName : Text.NonBlank)
  | ofUniqueId (id : UniqueId)
deriving DecidableEq

namespace Selector

/-- The text, unless it is blank. -/
def named (text : String) (cause : Refusal) : Except Fault Text.NonBlank :=
  match Text.NonBlank.ofString? text with
  | none => refuse cause
  | some t => .ok t

/-- Selects a class by its dotted name. -/
def byClass (name : String) : Except Fault Selector := do
  return .ofClass (← named name .blankClassName)

/-- Selects a module. -/
def byModule (name : String) : Except Fault Selector := do
  return .ofModule (← named name .blankModuleName)

/-- Selects one method of a class. -/
def byMethod (className methodName : String) : Except Fault Selector := do
  return .ofMethod (← named className .blankClassName) (← named methodName .blankMethodName)

/-- Selects a node by the written form of its id. -/
def byUniqueId (text : String) : Except Fault Selector := do
  return .ofUniqueId (← UniqueId.parse text)

/-- The kinds of selector. -/
inductive Kind where
  | ofClass
  | ofModule
  | ofMethod
  | ofUniqueId
deriving DecidableEq

/-- The kind of a selector. -/
def kind : Selector → Kind
  | ofClass _ => .ofClass
  | ofModule _ => .ofModule
  | ofMethod _ _ => .ofMethod
  | ofUniqueId _ => .ofUniqueId

end Selector

/-- The dotted name of a class defined in a module under a qualified name. -/
def className (module qualifiedName : String) : String := module ++ "." ++ qualifiedName

end TestLauncher
