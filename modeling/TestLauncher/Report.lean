import TestLauncher.Collection.OrderedMap
import TestLauncher.Fault
import TestLauncher.Scalar
import TestLauncher.Text.Blank

/-! # Results and report entries

    What engines tell about a node: how its execution ended, and data published on the
    way.  The data are texts under keys; values that are no texts are written out. -/

namespace TestLauncher

/-- How the execution of a node ended. -/
inductive ExecutionStatus where
  | successful
  | aborted
  | failed
deriving DecidableEq, Repr

/-- The word for a status. -/
def ExecutionStatus.word : ExecutionStatus → String
  | successful => "successful"
  | aborted => "aborted"
  | failed => "failed"

/-- How the execution of a node ended, and the fault that ended it. -/
structure ExecutionResult where
  status : ExecutionStatus
  fault? : Option Fault := none
deriving DecidableEq

/-- The result of a node that did what it should. -/
def ExecutionResult.successful : ExecutionResult := ⟨.successful, none⟩

/-- Texts published under keys; there is at least one, and no key is blank. -/
structure ReportEntry where
  values : OrderedMap String String
  nonempty : values.isEmpty = false
  keys_not_blank : values.keys.all (fun k => !Text.isBlank k) = true
deriving DecidableEq

namespace ReportEntry

/-- The entry with the given texts, or what is wrong with their keys. -/
def ofTexts (values : OrderedMap String String) : Except Fault ReportEntry :=
  if h : values.isEmpty = false then
    if hk : values.keys.all (fun k => !Text.isBlank k) = true then .ok ⟨values, h, hk⟩
    else refuse .blankEntryKey
  else refuse .emptyEntry

/-- The entry with the texts of the given values. -/
def ofValues (values : OrderedMap String Scalar) : Except Fault ReportEntry :=
  ofTexts (OrderedMap.ofList (values.toList.map fun e => (e.1, e.2.plain)))

end ReportEntry

end TestLauncher
