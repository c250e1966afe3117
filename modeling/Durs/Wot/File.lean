/-
# The file format of the web of trust

A file holds a byte string with its size, the number of nodes, the enabled flags packed eight to a
byte, and for each node the number of its sources and their ids on three bytes.
-/

import Durs.RustStd.BigEndian
import Durs.Run
import Durs.Wot.Links

namespace Durs

open RustStd

/-- Results of writing to a binary file; what the file system answers is not modelled. -/
inductive WotWriteError
  | wrongWotSize
deriving DecidableEq, Repr

/-- `write_u32`, after the cast to `u32`. -/
def writeU32 (n : Nat) : List UInt8 := bigEndian 4 (n % 4294967296)

/-- `write_u24`, after the cast to `u32`; it panics when the number does not fit. -/
def writeU24 (n : Nat) : Run (List UInt8) :=
  if n % 4294967296 < 16777216 then return bigEndian 3 (n % 4294967296)
  else fatalError "assertion failed: pack_size(n) <= nbytes && nbytes <= 8"

/-- `Vec::split_off`. -/
def splitOff (bytes : List UInt8) (at' : Nat) : Run (List UInt8 × List UInt8) :=
  if at' ≤ bytes.length then return bytes.splitAt at'
  else fatalError "`at` out of bounds"

namespace WebOfTrust

/-! ## Writing -/

/-- The state of the loop that writes the enabled flags. -/
structure StatesWriter where
  buffer : List UInt8
  enableStates : UInt8
  factor : UInt8

/-- Write the flag of a node: eight flags make a byte. -/
def writeState (wot : WebOfTrust) (w : StatesWriter) (n : NodeId) :
    Except WotWriteError StatesWriter :=
  match wot.isEnabled n with
  | some enable =>
      let enableStates := if enable then w.enableStates + w.factor else w.enableStates
      if n % 8 = 7 then
        .ok { buffer := w.buffer ++ [enableStates], enableStates := 0, factor := 128 }
      else .ok { w with enableStates, factor := w.factor / 2 }
  | none => .error .wrongWotSize

/-- Write the enabled flags, with the padding. -/
def writeStates (wot : WebOfTrust) (nodesCount : Nat) : Except WotWriteError (List UInt8) := do
  let w ← (List.range nodesCount).foldlM wot.writeState
    { buffer := [], enableStates := 0, factor := 128 }
  return if nodesCount % 8 ≠ 7 then w.buffer ++ [w.enableStates] else w.buffer

/-- Write the sources of a node, preceded by their number. -/
def writeSources (wot : WebOfTrust) (n : NodeId) : Run (List UInt8) :=
  match wot.getLinksSource n with
  | some sources => do
      let written ← sources.mapM writeU24
      return UInt8.ofNat sources.length :: written.flatten
  | none => return []

/-- Write the links. -/
def writeLinks (wot : WebOfTrust) (nodesCount : Nat) : Run (List UInt8) := do
  let written ← (List.range nodesCount).mapM wot.writeSources
  return written.flatten

/-- The bytes that `to_file` writes. -/
def toFile (wot : WebOfTrust) (data : List UInt8) : Run (Except WotWriteError (List UInt8)) :=
  match wot.writeStates (wot.size % 4294967296) with
  | .error err => return .error err
  | .ok states => do
      let links ← wot.writeLinks (wot.size % 4294967296)
      return .ok (writeU32 data.length ++ data ++ writeU32 wot.size ++ states ++ links)

/-! ## Reading -/

/-- The state of the loop that reads the enabled flags. -/
structure StatesReader where
  wot : WebOfTrust
  countRemainingNodes : Nat

/-- Read a flag: a node is added for it, disabled when the bit is not set. -/
def readState (nodesCount : Nat) (r : StatesReader × UInt8 × UInt8) : StatesReader × UInt8 × UInt8 :=
  let (reader, byteInteger, factor) := r
  if reader.countRemainingNodes > 0 then
    let wot := reader.wot.addNode
    let countRemainingNodes := reader.countRemainingNodes - 1
    if byteInteger ≥ factor then ({ wot, countRemainingNodes }, byteInteger - factor, factor / 2)
    else
      let wot := wot.setEnabled (nodesCount - reader.countRemainingNodes) false
      ({ wot, countRemainingNodes }, byteInteger, factor / 2)
  else (reader, byteInteger, factor / 2)

/-- Read the eight flags of a byte. -/
def readStateByte (nodesCount : Nat) (reader : StatesReader) (byte : UInt8) : StatesReader :=
  ((List.range 8).foldl (fun r _ => readState nodesCount r) (reader, byte, 128)).1

/-- Read the enabled flags into a new web of trust. -/
def readStates (nodesCount : Nat) (states : List UInt8) (maxLinks : Nat) : WebOfTrust :=
  (states.foldl (readStateByte nodesCount)
    { wot := .new maxLinks, countRemainingNodes := nodesCount }).wot

/-- The state of the loop that reads the links. -/
structure LinksReader where
  wot : WebOfTrust
  buffer3b : List UInt8
  countBytes : Nat
  remainingLinks : UInt8
  target : Nat

/-- Read a byte: the number of sources of the next node, or a byte of a source. -/
def readLinkByte (reader : LinksReader) (byte : UInt8) : LinksReader :=
  if reader.remainingLinks = 0 then
    { reader with
      target := (reader.target + 1) % 4294967296, remainingLinks := byte, countBytes := 0 }
  else
    let buffer3b := reader.buffer3b ++ [byte]
    let countBytes := reader.countBytes + 1
    if reader.countBytes % 3 = 2 then
      let target := (reader.target + 4294967295) % 4294967296
      { reader with
        wot := (reader.wot.addLink (readBigEndian buffer3b) target).1
        remainingLinks := reader.remainingLinks - 1, buffer3b := [], countBytes }
    else { reader with buffer3b, countBytes }

/-- Read the links. -/
def readLinks (wot : WebOfTrust) (links : List UInt8) : Run WebOfTrust :=
  let reader := links.foldl readLinkByte
    { wot, buffer3b := [], countBytes := 0, remainingLinks := 0, target := 0 }
  if reader.countBytes % 3 ≠ 0 then fatalError "not read all wot file !" else return reader.wot

/-- The number of bytes that the reader takes for the enabled flags. -/
def nodesStatesSize (nodesCount : Nat) : Nat :=
  if nodesCount % 8 = 0 then nodesCount / 8 else nodesCount / 8 + 1

/-- Read the bytes of a file. -/
def fromFile (file : List UInt8) (maxLinks : Nat) : Run (WebOfTrust × List UInt8) := do
  let (blockstampSizeBytes, rest) ← splitOff file 4
  let blockstampSize := readBigEndian blockstampSizeBytes
  let (blockstamp, rest) ← splitOff rest blockstampSize
  let (nodesCountBytes, rest) ← splitOff rest 4
  let nodesCount := readBigEndian nodesCountBytes
  let (nodesStates, links) ← splitOff rest (nodesStatesSize nodesCount)
  if links.length + nodesStatesSize nodesCount + 4 + blockstampSize + 4 ≠ file.length then
    fatalError "not read all wot file !"
  else do
    let wot ← readLinks (readStates nodesCount nodesStates maxLinks) links
    return (wot, blockstamp)

end WebOfTrust

end Durs
