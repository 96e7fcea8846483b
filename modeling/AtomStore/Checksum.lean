import AtomStore.Particle

/-!
# CRC-32 checksums

The checksum of a run of bytes is the state of a 32-bit register, started with all bits set, after
taking in the bytes one by one, with all bits flipped at the end. Taking in a byte mixes it into the
low bits and then divides them out by the reflected polynomial, one bit at a time.
-/

namespace AtomStore.Checksum

/-- The reflected CRC-32 polynomial. -/
def polynomial : UInt32 := 0xEDB88320

/-- The register before the first byte. -/
def initial : UInt32 := 0xFFFFFFFF

/-- Divides out the lowest bit. -/
def shiftOut (register : UInt32) : UInt32 :=
  if register &&& 1 = 1 then (register >>> 1) ^^^ polynomial else register >>> 1

/-- Takes in one byte. -/
def update (register : UInt32) (byte : UInt8) : UInt32 :=
  let mixed := register ^^^ byte.toUInt32
  shiftOut (shiftOut (shiftOut (shiftOut (shiftOut (shiftOut (shiftOut (shiftOut mixed)))))))

/-- Takes in bytes in order. -/
def updateAll (register : UInt32) (bytes : Bytes) : UInt32 :=
  bytes.foldl update register

/-- The checksum that a register stands for. -/
def finish (register : UInt32) : UInt32 := register ^^^ 0xFFFFFFFF

/-- The checksum of a run of bytes. -/
def ofBytes (bytes : Bytes) : UInt32 := finish (updateAll initial bytes)

/-- A run taken in piece by piece leaves the register of the whole run. -/
theorem updateAll_append (register : UInt32) (front back : Bytes) :
    updateAll register (front ++ back) = updateAll (updateAll register front) back :=
  List.foldl_append

/-- The checksum of the nine ASCII digits from one, by which implementations are compared. -/
theorem ofBytes_digits :
    ofBytes [0x31, 0x32, 0x33, 0x34, 0x35, 0x36, 0x37, 0x38, 0x39] = 0xCBF43926 := by
  decide +kernel

end AtomStore.Checksum
