/-!
# Faults of a schema

Why a set of declarations cannot be compiled into a layout, and the wording of each fault.
-/

namespace PacketWire

/-- A fault found while compiling a schema. `owner` is the packet or struct at fault. -/
inductive SchemaError where
  | duplicateField (owner field : String)
  | duplicateType (type : String)
  | unknownType (owner field type : String)
  | recursiveType (type : String)
  | unknownSizeField (owner field sizeField : String)
  | sizeFieldAfterDependent (owner field sizeField : String)
  | invalidSizeField (owner sizeField : String)
  | missingLengthSource (owner field : String)
  | unsupportedKind (owner field reason : String)
  | dynamicElement (owner field : String)
  | orderOutOfRange (owner field : String) (order available : Nat)
  | zeroLength (owner field : String)
  deriving DecidableEq, Repr

/-- The fault in words. -/
def SchemaError.message : SchemaError → String
  | duplicateField owner field => s!"field '{field}' declared twice in '{owner}'"
  | duplicateType type => s!"type '{type}' declared twice"
  | unknownType owner field type =>
    s!"field '{field}' of '{owner}' refers to unknown type '{type}'"
  | recursiveType type => s!"type '{type}' contains itself"
  | unknownSizeField owner field sizeField =>
    s!"field '{field}' of '{owner}' is sized by unknown field '{sizeField}'"
  | sizeFieldAfterDependent owner field sizeField =>
    s!"field '{field}' of '{owner}' is sized by '{sizeField}', which comes after it"
  | invalidSizeField owner sizeField =>
    s!"size field '{sizeField}' of '{owner}' must be an unsigned or signed integer"
  | missingLengthSource owner field =>
    s!"dynamic field '{field}' of '{owner}' has neither a size field nor a fixed length"
  | unsupportedKind owner field reason =>
    s!"field '{field}' of '{owner}' has an unsupported kind: {reason}"
  | dynamicElement owner field => s!"array '{field}' of '{owner}' has elements of dynamic size"
  | orderOutOfRange owner field order available =>
    s!"field '{field}' of '{owner}' requests position {order}, but only {available} fields exist"
  | zeroLength owner field => s!"field '{field}' of '{owner}' has a zero length"

end PacketWire
