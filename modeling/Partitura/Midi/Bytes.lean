/-!
# Bytes of sequencer files

Numbers are written with the most significant byte first. A quantity of variable
length has seven bits to a byte, and every byte but the last has its top bit set.
A chunk is a tag of four letters, the length of its payload, and the payload.
-/

namespace Partitura.Midi

abbrev Bytes := List UInt8

/-- The low 16, 24 or 32 bits of a number. -/
def big16 (n : Nat) : Bytes := [UInt8.ofNat (n / 256), UInt8.ofNat n]

def big24 (n : Nat) : Bytes := UInt8.ofNat (n / 65536) :: big16 n

def big32 (n : Nat) : Bytes := UInt8.ofNat (n / 16777216) :: big24 n

def leadingGroups (n : Nat) : Bytes :=
  if _h : n = 0 then []
  else leadingGroups (n / 128) ++ [UInt8.ofNat (n % 128 + 128)]
termination_by n
decreasing_by omega

def quantity (n : Nat) : Bytes := leadingGroups (n / 128) ++ [UInt8.ofNat (n % 128)]

def textBytes (s : String) : Bytes := s.toUTF8.toList

def chunk (tag payload : Bytes) : Bytes := tag ++ big32 payload.length ++ payload

end Partitura.Midi
