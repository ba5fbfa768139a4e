/-!
# The checksum

The checksum is the 32-bit cyclic redundancy check in its reflected form: the
register starts with all bits set, takes in the bytes one after the other with
their lowest bit first, and is complemented at the end.
-/

namespace SeriesStore.Sidecar

/-- The generator polynomial, with the bit of the highest power last. -/
def generator : UInt32 :=
  0xEDB88320

/-- Shifts the register by one bit and takes the generator off when a bit falls
out. -/
def shiftRegister (register : UInt32) : UInt32 :=
  if register &&& 1 = 1 then (register >>> 1) ^^^ generator else register >>> 1

/-- Takes one byte into the register. -/
def takeByte (register : UInt32) (byte : UInt8) : UInt32 :=
  Nat.repeat shiftRegister 8 (register ^^^ byte.toUInt32)

/-- Takes bytes into the register one after the other. -/
def takeBytes (register : UInt32) (bytes : List UInt8) : UInt32 :=
  bytes.foldl takeByte register

/-- The checksum of a list of bytes. -/
def checksum (bytes : List UInt8) : UInt32 :=
  takeBytes 0xFFFFFFFF bytes ^^^ 0xFFFFFFFF

theorem takeBytes_append (register : UInt32) (first second : List UInt8) :
    takeBytes register (first ++ second) = takeBytes (takeBytes register first) second :=
  List.foldl_append

end SeriesStore.Sidecar
