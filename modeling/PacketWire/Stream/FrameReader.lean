import PacketWire.Registry

/-!
# Cutting a byte stream into packets

Packets follow one another without separators or lengths. The first byte, and in a family the
second, select the packet; its fixed part tells how long to wait, and its size fields tell the rest.
A packet longer than the limit is refused, as soon as its length is known or more than the limit is
waiting.
-/

namespace PacketWire

/-- One packet off the stream. -/
structure Frame where
  descriptor : Descriptor
  record : Record
  /-- The bytes it took. -/
  length : Nat

/-- What a stream is read by (`WireCodec`). -/
structure FrameReader where
  registry : Registry
  direction : Direction := .incoming
  maxFrameSize : Nat := 64 * 1024

namespace FrameReader

/-- The packet that the first bytes select, once they do (`resolve`). -/
def resolve (reader : FrameReader) : Bytes → Except ProtocolError (Option Descriptor)
  | [] => .ok none
  | header :: rest =>
    match reader.registry.lookup reader.direction header with
    | none => .error (.unknownHeader header)
    | some descriptor =>
      if !descriptor.isFamily then .ok (some descriptor)
      else
        match rest with
        | [] => .ok none
        | sub :: _ =>
          match reader.registry.lookupSub reader.direction header sub with
          | some descriptor => .ok (some descriptor)
          | none => .error (.unknownSubHeader header sub)

/-- Refuses a length beyond the limit (`check_size`). -/
def checkSize (reader : FrameReader) (length : Nat) : Except ProtocolError Unit :=
  if reader.maxFrameSize < length then .error (.oversizedFrame length) else .ok ()

/-- The packet at the front of a buffer and the bytes behind it (`decode`); nothing while more bytes
are needed. -/
def next (reader : FrameReader) (buf : Bytes) : Except ProtocolError (Option (Frame × Bytes)) := do
  match ← reader.resolve buf with
  | none => return none
  | some descriptor =>
    match ← ProtocolError.ofCodec (descriptor.frameLength buf) with
    | none =>
      reader.checkSize buf.length
      return none
    | some length =>
      reader.checkSize length
      if buf.length < length then
        return none
      else
        let (record, consumed) ← ProtocolError.ofCodec (descriptor.decode (buf.take length) 0)
        return some (⟨descriptor, record, length⟩, buf.drop consumed)

/-- The same at the end of the stream, where no more bytes come (`decode_eof`): what is left of a
packet is a fault. -/
def nextAtEnd (reader : FrameReader) (buf : Bytes) :
    Except ProtocolError (Option (Frame × Bytes)) := do
  match ← reader.next buf with
  | some frame => return some frame
  | none => if buf.isEmpty then return none else throw .truncated

/-- What a reader makes of a buffer: the packets at its front, the fault that stopped it if one
did, and the bytes left over. -/
structure Reading where
  frames : List Frame
  fault : Option ProtocolError
  left : Bytes

/-- Takes packets off a buffer with `take`, until it wants more bytes or fails. -/
def readWith (take : Bytes → Except ProtocolError (Option (Frame × Bytes))) (buf : Bytes) :
    Reading :=
  match take buf with
  | .error fault => ⟨[], some fault, buf⟩
  | .ok none => ⟨[], none, buf⟩
  | .ok (some (frame, rest)) =>
    if rest.length < buf.length then
      let reading := readWith take rest
      { reading with frames := frame :: reading.frames }
    else ⟨[frame], none, rest⟩
termination_by buf.length

/-- Takes every packet off a buffer. -/
def read (reader : FrameReader) (buf : Bytes) : Reading := readWith reader.next buf

/-- Takes every packet off the end of a stream. -/
def readAtEnd (reader : FrameReader) (buf : Bytes) : Reading := readWith reader.nextAtEnd buf

/-- Feeds a stream in chunks, taking every packet off as soon as it is there, until a fault. -/
def feed (reader : FrameReader) : Bytes → List Bytes → Reading
  | buf, [] => ⟨[], none, buf⟩
  | buf, chunk :: rest =>
    let reading := reader.read (buf ++ chunk)
    match reading.fault with
    | some fault => ⟨reading.frames, some fault, reading.left ++ rest.flatten⟩
    | none =>
      let later := reader.feed reading.left rest
      { later with frames := reading.frames ++ later.frames }

end FrameReader

end PacketWire
