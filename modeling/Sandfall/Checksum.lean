/-!
The 32-bit FNV-1a checksum: each byte is mixed in by an exclusive or and a multiplication, so order
counts.
-/

namespace Sandfall.Checksum

def start : UInt32 := 0x811C9DC5

def prime : UInt32 := 0x01000193

def mix (h : UInt32) (b : UInt8) : UInt32 := (h ^^^ b.toUInt32) * prime

def ofList (bytes : List UInt8) : UInt32 := bytes.foldl mix start

end Sandfall.Checksum
