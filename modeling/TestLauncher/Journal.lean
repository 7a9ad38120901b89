import TestLauncher.Fault

/-! # The journal

    The launcher writes down what it does: records with a level, the name of the part that
    writes, a message, and at times the fault it is about.  A journal keeps the records
    from a threshold on, and never one whose level is not positive. -/

namespace TestLauncher

/-- The levels of log records. -/
inductive LogLevel where
  | debug
  | info
  | warning
  | error
  | critical
deriving DecidableEq, Repr

/-- The number of a level. -/
def LogLevel.number : LogLevel → Int
  | debug => 10
  | info => 20
  | warning => 30
  | error => 40
  | critical => 50

/-- The word for a level. -/
def LogLevel.word : LogLevel → String
  | debug => "DEBUG"
  | info => "INFO"
  | warning => "WARNING"
  | error => "ERROR"
  | critical => "CRITICAL"

/-- One line of a journal. -/
structure LogRecord where
  level : Int
  logger : String
  message : String
  fault? : Option Fault := none
deriving DecidableEq

/-- The records written so far, and from which level on they are kept. -/
structure Journal where
  threshold : Int := LogLevel.debug.number
  records : List LogRecord := []

namespace Journal

instance : EmptyCollection Journal where
  emptyCollection := {}

/-- The journal without records that keeps them from a level on; zero stands for the usual
threshold. -/
def keepingFrom (threshold : Int) : Journal :=
  if threshold = 0 then ∅ else { threshold }

/-- Whether a journal keeps the records of a level. -/
def keeps (j : Journal) (level : Int) : Bool := 0 < level && j.threshold ≤ level

/-- The journal with one more record, if it keeps records of that level. -/
def write (j : Journal) (r : LogRecord) : Journal :=
  if j.keeps r.level then { j with records := j.records ++ [r] } else j

theorem records_write (j : Journal) (r : LogRecord) :
    (j.write r).records = j.records ++ if j.keeps r.level then [r] else [] := by
  unfold write
  split <;> simp

@[simp] theorem threshold_write (j : Journal) (r : LogRecord) :
    (j.write r).threshold = j.threshold := by
  unfold write
  split <;> rfl

/-- Every level of the launcher's own records is kept by the usual journal. -/
theorem keeps_empty (level : LogLevel) : (∅ : Journal).keeps level.number = true := by
  cases level <;> rfl

end Journal

/-- The record of a part of the launcher. -/
def LogLevel.record (level : LogLevel) (logger message : String) (fault? : Option Fault := none) :
    LogRecord := ⟨level.number, logger, message, fault?⟩

end TestLauncher
