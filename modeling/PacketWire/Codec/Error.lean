/-!
# Faults of a value or a buffer

Why a record does not fit its layout, or a buffer does not hold what the layout expects, and the
wording of each fault. The last two are not faults of the input: they say that a layout contradicts
itself, and no layout that the compiler makes leads to them.
-/

namespace PacketWire

/-- A fault found while writing a record or reading a buffer. -/
inductive CodecError where
  | missingField (field : String)
  | typeMismatch (field expected found : String)
  | stringTooLong (field : String) (length capacity : Nat)
  | nonAscii (field : String)
  | embeddedNul (field : String)
  | arrayLength (field : String) (length expected : Nat)
  | lengthOverflow (field sizeField : String) (length : Nat)
  | lengthConflict (sizeField : String) (first second : Nat)
  | negativeSize (field : String)
  | sizeOverflow (field : String)
  | bufferTooShort (required available : Nat)
  /-- An access outside the buffer. -/
  | outOfBounds
  /-- A nested struct shorter than its fixed part. -/
  | negativeSpan
  deriving DecidableEq, Repr

/-- The fault in words. -/
def CodecError.message : CodecError → String
  | missingField field => s!"missing field '{field}'"
  | typeMismatch field expected found => s!"field '{field}' expected {expected}, found {found}"
  | stringTooLong field length capacity =>
    s!"string '{field}' is {length} bytes, capacity is {capacity}"
  | nonAscii field => s!"string '{field}' contains non-ASCII characters"
  | embeddedNul field => s!"string '{field}' contains a NUL byte"
  | arrayLength field length expected =>
    s!"array '{field}' has {length} elements, layout requires {expected}"
  | lengthOverflow field sizeField length =>
    s!"length {length} of '{field}' does not fit size field '{sizeField}'"
  | lengthConflict sizeField first second =>
    s!"fields sized by '{sizeField}' disagree on their length ({first} vs {second})"
  | negativeSize field => s!"size field '{field}' holds a negative value"
  | sizeOverflow field => s!"span of '{field}' overflows the address space"
  | bufferTooShort required available =>
    s!"buffer holds {available} bytes, {required} required"
  | outOfBounds => "access outside the buffer"
  | negativeSpan => "nested struct shorter than its fixed part"

end PacketWire
