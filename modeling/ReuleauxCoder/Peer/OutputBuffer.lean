import ReuleauxCoder.Library.Runes

/-!
# The peer's output buffers

A process stream is kept as the bytes at its end, under the offset at which they start.  A
reader gets a page of them that is cut to a number of bytes and then to whole runes, unless
the process has exited and the bytes at hand are the last ones.
-/

namespace ReuleauxCoder.Peer

open PyText Runes

def maxRetainedBytesPerStream : ℕ := 512 * 1024
def maxPollBytesPerStream : ℕ := 64 * 1024

structure BufferSnapshot where
  data : List Byte
  nextOffset : ℕ
  truncated : Bool
  totalBytes : ℕ
  decodeReplaced : Bool
  deriving DecidableEq

structure BoundedBuffer where
  data : List Byte := []
  startOffset : ℕ := 0
  nextOffset : ℕ := 0
  totalBytes : ℕ := 0
  truncated : Bool := false
  deriving DecidableEq

/-- `consumableUTF8Prefix`. -/
def consumableUTF8Prefix (data : List Byte) (final : Bool) : ℕ :=
  if data = [] then 0
  else if !fullRune data then if final then data.length else 0
  else runeWidth data + consumableUTF8Prefix (data.drop (runeWidth data)) final
termination_by data.length
decreasing_by
  have hsome := List.length_pos_of_ne_nil ‹data ≠ []›
  have hwidth := runeWidth_pos ‹data ≠ []›
  rw [List.length_drop]
  omega

namespace BoundedBuffer

variable (buffer : BoundedBuffer)

/-- `Write`. -/
def write (bytes : List Byte) : BoundedBuffer :=
  let data := buffer.data ++ bytes
  let written : BoundedBuffer :=
    { buffer with
      data
      nextOffset := buffer.nextOffset + bytes.length
      totalBytes := buffer.totalBytes + bytes.length }
  if maxRetainedBytesPerStream < data.length then
    let drop := data.length - maxRetainedBytesPerStream
    { written with
      data := data.drop drop
      startOffset := buffer.startOffset + drop
      truncated := true }
  else written

/-- The requested offset, moved into the retained bytes. -/
def requested (offset : ℤ) : ℕ :=
  (min (max offset buffer.startOffset) buffer.nextOffset).toNat

/-- Bytes that a page skips because the rune they belong to was begun before it. -/
def skipped (offset : ℤ) : ℕ :=
  if buffer.truncated || offset < buffer.startOffset then
    ((buffer.data.drop (buffer.requested offset - buffer.startOffset)).takeWhile isTail).length
  else 0

/-- Where a page starts. -/
def pageStart (offset : ℤ) : ℕ :=
  buffer.requested offset + buffer.skipped offset

/-- The retained bytes from the page's start on. -/
def available (offset : ℤ) : List Byte :=
  buffer.data.drop (buffer.pageStart offset - buffer.startOffset)

/-- `snapshot`. -/
def snapshot (offset : ℤ) (limit : ℕ) (final : Bool) : BufferSnapshot :=
  let available := buffer.available offset
  let limited := available.take limit
  let data := limited.take (consumableUTF8Prefix limited final)
  { data
    nextOffset := buffer.pageStart offset + data.length
    truncated := buffer.truncated || offset < buffer.startOffset ||
      decide (limit < available.length)
    totalBytes := buffer.totalBytes
    decodeReplaced := !valid data }

end BoundedBuffer

end ReuleauxCoder.Peer
