namespace TieredMemory

inductive Error where
  | blockOutOfRange (block blocks : Nat)
  | lengthExceedsBlock (length blockSize : Nat)
  | offsetOutOfBounds (offset length blockSize : Nat)
  | addressOutOfRange (address length limit : Nat)
  | noSpace
  | invalidBlockSize (reason : String)
  | insufficientMemory (requested available : Nat)
  | reservedSpaceTooSmall (reserved required : Nat)
  | invalidCapacity (reason : String)
  | shortTransfer (transferred requested : Nat)
  | bankSwitch (reason : String)
  | io (reason : String)
  | config (reason : String)
  | invalidHandle (handle : Nat)
  deriving DecidableEq, Repr

def hexadecimal (n : Nat) : String := String.ofList (Nat.toDigits 16 n)

def addressText (address : Nat) : String := "0x" ++ hexadecimal address

def Error.message : Error → String
  | .blockOutOfRange block blocks => s!"Block {block} out of range (max {blocks})"
  | .lengthExceedsBlock length blockSize => s!"Length {length} exceeds block size {blockSize}"
  | .offsetOutOfBounds offset length blockSize =>
    s!"Range {offset}+{length} exceeds block size {blockSize}"
  | .addressOutOfRange address length limit =>
    s!"Address range {addressText address}+{length} exceeds {limit} bytes"
  | .noSpace => "No free block available"
  | .invalidBlockSize reason => s!"Invalid block size: {reason}"
  | .insufficientMemory requested available =>
    s!"Insufficient memory: requested {requested} blocks, {available} available"
  | .reservedSpaceTooSmall reserved required =>
    s!"Reserved window area too small: {reserved} bytes, need {required}"
  | .invalidCapacity reason => s!"Invalid capacity: {reason}"
  | .shortTransfer transferred requested =>
    s!"Short transfer: {transferred} of {requested} bytes"
  | .bankSwitch reason => s!"Bank switch error: {reason}"
  | .io reason => s!"IO error: {reason}"
  | .config reason => s!"Configuration error: {reason}"
  | .invalidHandle handle => s!"Invalid handle: {handle}"

end TieredMemory
