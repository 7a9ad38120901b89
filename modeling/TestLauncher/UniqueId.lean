import TestLauncher.Fault
import TestLauncher.Text.Blank

/-! # Unique ids

    A unique id is a nonempty list of segments, each a type and a value.  It is written
    `[type:value]` per segment with a slash between, and nothing is escaped; so a value
    that holds a line break or the text that parts two segments does not read back. -/

namespace TestLauncher

/-- Whether a character may not stand in the type of a segment. -/
def isReserved (c : Char) : Bool := c = ':' ∨ c = '[' ∨ c = ']'

/-- A part of a unique id: a type without reserved characters, and a value, neither blank. -/
structure Segment where
  /-- What kind of thing the segment names. -/
  type : String
  /-- Its name among the things of that kind. -/
  value : String
  type_not_blank : Text.isBlank type = false
  type_plain : type.toList.any isReserved = false
  value_not_blank : Text.isBlank value = false

namespace Segment

/-- Segments are equal when their types and their values are. -/
theorem ext_iff {s t : Segment} : s = t ↔ s.type = t.type ∧ s.value = t.value := by
  cases s
  cases t
  simp

instance : DecidableEq Segment := fun _ _ => decidable_of_iff _ ext_iff.symm

/-- The segment of a type and a value, or what is wrong with them. -/
def make (type value : String) : Except Fault Segment :=
  if ht : Text.isBlank type = false then
    if hp : type.toList.any isReserved = false then
      if hv : Text.isBlank value = false then .ok ⟨type, value, ht, hp, hv⟩
      else refuse .blankSegmentValue
    else refuse (.reservedSegmentType type)
  else refuse .blankSegmentType

/-- The characters of a written segment. -/
def chars (s : Segment) : List Char :=
  '[' :: s.type.toList ++ ':' :: s.value.toList ++ [']']

/-- The written form of a segment. -/
def render (s : Segment) : String := String.ofList s.chars

/-- The type of the segment that names an engine. -/
def engineType : String := "engine"

/-- The type of the segment that names a suite. -/
def suiteType : String := "suite"

/-- Whether the segment names the root of an engine's tree or a suite. -/
def isRoot (s : Segment) : Bool := s.type = engineType ∨ s.type = suiteType

theorem make_self (s : Segment) : make s.type s.value = .ok s := by
  simp [make, s.type_not_blank, s.type_plain, s.value_not_blank]

theorem type_of_make {type value : String} {s : Segment} (h : make type value = .ok s) :
    s.type = type ∧ s.value = value := by
  unfold make at h
  split at h
  · split at h
    · split at h
      · cases h; exact ⟨rfl, rfl⟩
      · cases h
    · cases h
  · cases h

end Segment

/-- A nonempty list of segments. -/
structure UniqueId where
  /-- The segments, outermost first. -/
  segments : List Segment
  nonempty : segments ≠ []
deriving DecidableEq

namespace UniqueId

/-- The id with the given segments, if there are any. -/
def ofSegments : List Segment → Except Fault UniqueId
  | [] => refuse .noSegments
  | s :: ss => .ok ⟨s :: ss, List.cons_ne_nil s ss⟩

/-- The id with one segment. -/
def single (s : Segment) : UniqueId := ⟨[s], List.cons_ne_nil s []⟩

/-- The id with one segment, made from its type and value. -/
def root (type value : String) : Except Fault UniqueId :=
  (Segment.make type value).map single

/-- The id of the root of an engine's tree. -/
def forEngine (engineId : String) : Except Fault UniqueId := root Segment.engineType engineId

/-- The id with one more segment. -/
def push (u : UniqueId) (s : Segment) : UniqueId :=
  ⟨u.segments ++ [s], by simp⟩

/-- The id with one more segment, made from its type and value. -/
def append (u : UniqueId) (type value : String) : Except Fault UniqueId :=
  (Segment.make type value).map u.push

/-- Whether the segments of the other id lead the segments of this one. -/
def hasPrefix (u v : UniqueId) : Bool := v.segments.isPrefixOf u.segments

/-- The innermost segment. -/
def last (u : UniqueId) : Segment := u.segments.getLast u.nonempty

/-- The value of the outermost engine segment. -/
def engineId? (u : UniqueId) : Option String :=
  (u.segments.find? fun s => s.type = Segment.engineType).map Segment.value

/-- The characters of written segments, with a slash between any two. -/
def charsOf : List Segment → List Char
  | [] => []
  | [s] => s.chars
  | s :: t :: rest => s.chars ++ '/' :: charsOf (t :: rest)

/-- The written form of an id. -/
def render (u : UniqueId) : String := String.ofList (charsOf u.segments)

instance : ToString UniqueId where
  toString := render

/-- The pieces of a text between the occurrences of the three characters that part two
segments. -/
def pieces : List Char → List (List Char)
  | ']' :: '/' :: '[' :: rest => [] :: pieces rest
  | [] => [[]]
  | c :: rest =>
    match pieces rest with
    | [] => [[c]]
    | p :: ps => (c :: p) :: ps

/-- The type and the value in a piece: the type runs to the first colon, must not be empty or
hold a bracket, and the value must not hold a line break. -/
def splitPiece? (piece : List Char) : Option (String × String) :=
  let type := piece.takeWhile fun c => !isReserved c
  match piece.dropWhile fun c => !isReserved c with
  | ':' :: value =>
    if type.isEmpty || value.contains '\n' then none
    else some (String.ofList type, String.ofList value)
  | _ => none

/-- The text between the brackets at both ends. -/
def unbracket? : List Char → Option (List Char)
  | '[' :: rest => if rest.getLast? = some ']' then some rest.dropLast else none
  | _ => none

/-- Reads an id from its written form. -/
def parse (text : String) : Except Fault UniqueId := do
  if Text.isBlank text then refuse .emptyUniqueId
  let some inner := unbracket? text.toList | refuse (.malformedUniqueId text)
  let segments ← (pieces inner).mapM fun piece =>
    match splitPiece? piece with
    | none => refuse (.malformedUniqueId text)
    | some (type, value) => Segment.make type value
  ofSegments segments

@[simp] theorem segments_push (u : UniqueId) (s : Segment) :
    (u.push s).segments = u.segments ++ [s] := rfl

@[simp] theorem last_push (u : UniqueId) (s : Segment) : (u.push s).last = s := by
  simp [last]

theorem hasPrefix_iff (u v : UniqueId) :
    u.hasPrefix v = true ↔ v.segments <+: u.segments := by
  simp [hasPrefix]

theorem ext_iff {u v : UniqueId} : u = v ↔ u.segments = v.segments := by
  cases u
  cases v
  simp

end UniqueId

end TestLauncher
