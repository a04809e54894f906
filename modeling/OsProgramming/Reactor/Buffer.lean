import OsProgramming.Library.Window
import OsProgramming.Reactor.Socket

/-! The byte buffer of `buffer.c`. The fields are the `int`s of the source; the
block behind `data` is a list of its bytes, so an access outside of it is a
fault. Only the size that `make_room` asks `realloc` for can leave the range of
`int`, and it is wrapped there. -/

namespace OsProgramming.Reactor

open Library

def initBufferSize : ℕ := 65536

structure Buffer where
  data : List Byte
  readIndex : ℤ
  writeIndex : ℤ
  totalSize : ℤ

/-- `header` is whether the allocation of the structure itself succeeds; the
answer for the block is not checked. -/
def bufferNew (header : Bool) (answer : Alloc Byte) : Option Buffer :=
  if header then some ⟨malloc initBufferSize answer, 0, 0, initBufferSize⟩ else none

def bufferWriteableSize (buffer : Buffer) : ℤ := buffer.totalSize - buffer.writeIndex

def bufferReadableSize (buffer : Buffer) : ℤ := buffer.writeIndex - buffer.readIndex

def bufferFrontSpareSize (buffer : Buffer) : ℤ := buffer.readIndex

def makeRoom (buffer : Buffer) (size : ℤ) (answer : Alloc Byte) : Result Buffer :=
  if size ≤ bufferWriteableSize buffer then .ok buffer
  else if size ≤ bufferFrontSpareSize buffer + bufferWriteableSize buffer then do
    let readableSize := bufferReadableSize buffer
    let data ← copyForward buffer.readIndex readableSize.toNat 0 buffer.data
    .ok { buffer with data, readIndex := 0, writeIndex := readableSize }
  else
    match realloc buffer.data (toSizeT (wrapInt (buffer.totalSize + size))) answer with
    | none => .ok buffer
    | some data => .ok { buffer with data, totalSize := wrapInt (buffer.totalSize + size) }

/-- `none` is the pointer `NULL`. -/
def bufferAppend (buffer : Buffer) (data : Option (List Byte)) (size : ℤ) (answer : Alloc Byte) :
    Result (Buffer × Bool) :=
  match data with
  | none => .ok (buffer, false)
  | some source =>
    if size ≤ 0 then .ok (buffer, false)
    else do
      let buffer ← makeRoom buffer size answer
      let bytes ← fetch source 0 size
      let data ← store buffer.data buffer.writeIndex bytes
      .ok ({ buffer with data, writeIndex := buffer.writeIndex + size }, true)

def bufferAppendChar (buffer : Buffer) (data : Byte) (answer : Alloc Byte) :
    Result (Buffer × Bool) := do
  let buffer ← makeRoom buffer 1 answer
  let block ← store buffer.data buffer.writeIndex [data]
  .ok ({ buffer with data := block, writeIndex := buffer.writeIndex + 1 }, true)

/-- The length of the string in a block, which must hold its `NUL`. -/
def strlen (block : List Byte) : Result ℕ :=
  if 0 ∈ block then .ok (block.takeWhile (· ≠ 0)).length else .error .outOfBounds

def bufferAppendString (buffer : Buffer) (str : Option (List Byte)) (answer : Alloc Byte) :
    Result (Buffer × Bool) :=
  match str with
  | none => .ok (buffer, false)
  | some block => do
    let length ← strlen block
    let (buffer, _) ← bufferAppend buffer (some block) (wrapInt length) answer
    .ok (buffer, true)

/-- What `readv` delivers: as much of the offered bytes as fits in the tail of
the block and in the additional buffer. -/
def readvDelivers (buffer : Buffer) : ReadAnswer → List Byte
  | .failed _ => []
  | .offered bytes => bytes.take ((bufferWriteableSize buffer).toNat + initBufferSize)

def bufferSocketRead (buffer : Buffer) (socket : ReadAnswer) (answer : Alloc Byte) :
    Result (Buffer × ℤ) :=
  let maximumWriteable := bufferWriteableSize buffer
  let bytes := readvDelivers buffer socket
  match socket with
  | .failed _ => .ok (buffer, -1)
  | .offered _ => do
    let data ← store buffer.data buffer.writeIndex (bytes.take maximumWriteable.toNat)
    let readSize : ℤ := bytes.length
    if readSize ≤ maximumWriteable then
      .ok ({ buffer with data, writeIndex := buffer.writeIndex + readSize }, readSize)
    else
      -- the tail is full and the rest is in the additional buffer
      let additionalBuffer := bytes.drop maximumWriteable.toNat
      let (buffer, _) ← bufferAppend { buffer with data, writeIndex := buffer.totalSize }
        (some additionalBuffer) (readSize - maximumWriteable) answer
      .ok (buffer, readSize)

def bufferReadChar (buffer : Buffer) : Result (Buffer × Byte) := do
  let result ← load buffer.data buffer.readIndex
  .ok ({ buffer with readIndex := buffer.readIndex + 1 }, result)

end OsProgramming.Reactor
