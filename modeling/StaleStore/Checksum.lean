import StaleStore.Text

namespace StaleStore

abbrev Bytes := List UInt8

namespace Checksum

def polynomial : UInt32 := 0xEDB88320

def shiftBit (crc : UInt32) : UInt32 :=
  if crc &&& 1 = 1 then (crc >>> 1) ^^^ polynomial else crc >>> 1

def addByte (crc : UInt32) (byte : UInt8) : UInt32 :=
  let c := crc ^^^ byte.toUInt32
  shiftBit (shiftBit (shiftBit (shiftBit (shiftBit (shiftBit (shiftBit (shiftBit c)))))))

def ofBytes (data : Bytes) : UInt32 := data.foldl addByte 0xFFFFFFFF ^^^ 0xFFFFFFFF

def tag (data : Bytes) : Text := Text.paddedHex 8 (ofBytes data).toNat

def joinedTag (data : Bytes) (parts : Nat) : Text := tag data ++ '-' :: Text.decimal parts

end Checksum
end StaleStore
