import TestLauncher.Numeric.Notation
import TestLauncher.Text.Quoted

/-! # Scalars

    The plain values that plug-ins hand in: texts, numbers, truth values, and nothing.
    Each has two written forms, which differ for texts only. -/

namespace TestLauncher

/-- A plain value. -/
inductive Scalar where
  | text (s : String)
  | integer (n : Int)
  | real (x : Float)
  | boolean (b : Bool)
  | absent
deriving Inhabited

namespace Scalar

/-- The value as a text; a text is itself. -/
def plain : Scalar → String
  | text s => s
  | integer n => toString n
  | real x => Numeric.showFloat x
  | boolean true => "True"
  | boolean false => "False"
  | absent => "None"

/-- The value as a text, with texts in quotes. -/
def quoted : Scalar → String
  | text s => Text.quote s
  | v => v.plain

end Scalar

end TestLauncher
