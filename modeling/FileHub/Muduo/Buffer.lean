import FileHub.Lib.BigEndian
import FileHub.Lib.CInt

/-!
# `muduo::net::Buffer`

The input and output buffer of a connection: one vector and two indices into
it. What was received or is to be sent stands between them; the front is kept
free for a header to be prepended, and what was retrieved from the front is
only reclaimed when an append finds no room behind.

The `assert`s of the source on arguments are what an operation needs of them:
an operation called without it has no result. The others are theorems. Sizes are
natural numbers here; `Sized` and `Shrinkable` say of a `size_t` from a caller that
it adds up as they do.
-/

namespace FileHub.Muduo

open Lib

def kCheapPrepend : ℕ := 8

def kInitialSize : ℕ := 1024

/-- `max_size()` of the vector, beyond which `resize` throws. -/
def MAX_SIZE : ℕ := 2 ^ 63 - 1

/-- `Buffer`; both indices are positions of the vector, in their order. -/
structure Buffer where
  buffer_ : Bytes
  readerIndex_ : ℕ
  writerIndex_ : ℕ
  ordered : readerIndex_ ≤ writerIndex_
  fits : writerIndex_ ≤ buffer_.length
  cheap : kCheapPrepend ≤ buffer_.length

/-- `std::copy` to position `i`. -/
def overwrite (buf : Bytes) (i : ℕ) (data : Bytes) : Bytes :=
  buf.take i ++ data ++ buf.drop (i + data.length)

theorem length_overwrite {buf data : Bytes} {i : ℕ} (h : i + data.length ≤ buf.length) :
    (overwrite buf i data).length = buf.length := by
  simp only [overwrite, List.length_append, List.length_take, List.length_drop]
  omega

/-- `std::vector::resize`. -/
def resize (buf : Bytes) (n : ℕ) : Bytes := buf.take n ++ List.replicate (n - buf.length) 0

theorem length_resize (buf : Bytes) (n : ℕ) : (resize buf n).length = n := by
  simp only [resize, List.length_append, List.length_take, List.length_replicate]
  omega

namespace Buffer

def readableBytes (b : Buffer) : ℕ := b.writerIndex_ - b.readerIndex_

def writableBytes (b : Buffer) : ℕ := b.buffer_.length - b.writerIndex_

def prependableBytes (b : Buffer) : ℕ := b.readerIndex_

/-- `toStringPiece`: the bytes between the indices, if an `int` holds their number. -/
def toStringPiece (b : Buffer) : Bytes :=
  (b.buffer_.drop b.readerIndex_).take b.readableBytes

theorem length_toStringPiece (b : Buffer) : b.toStringPiece.length = b.readableBytes := by
  have hfits := b.fits
  rw [toStringPiece, List.length_take, List.length_drop, readableBytes]
  omega

/-- The constructor. -/
def new (initialSize : ℕ) : Buffer where
  buffer_ := List.replicate (kCheapPrepend + initialSize) 0
  readerIndex_ := kCheapPrepend
  writerIndex_ := kCheapPrepend
  ordered := Nat.le_refl _
  fits := by rw [List.length_replicate]; exact Nat.le_add_right _ _
  cheap := by rw [List.length_replicate]; exact Nat.le_add_right _ _

def retrieveAll (b : Buffer) : Buffer :=
  { b with
    readerIndex_ := kCheapPrepend
    writerIndex_ := kCheapPrepend
    ordered := Nat.le_refl _
    fits := b.cheap }

def retrieve (b : Buffer) (len : ℕ) : Option Buffer :=
  if len ≤ b.readableBytes then
    if h : len < b.readableBytes then
      some { b with
        readerIndex_ := b.readerIndex_ + len
        ordered := by rw [readableBytes] at h; omega }
    else some b.retrieveAll
  else none

def retrieveAsString (b : Buffer) (len : ℕ) : Option (Bytes × Buffer) :=
  (b.retrieve len).map fun b' => (b.toStringPiece.take len, b')

def retrieveAllAsString (b : Buffer) : Option (Bytes × Buffer) :=
  b.retrieveAsString b.readableBytes

/-- Where the vector need not grow, what is readable fits at the front. -/
theorem front_fits {b : Buffer} {len : ℕ} (h : b.writableBytes < len)
    (hroom : ¬ b.writableBytes + b.prependableBytes < len + kCheapPrepend) :
    kCheapPrepend + b.toStringPiece.length ≤ b.buffer_.length := by
  have hfits := b.fits
  have hordered := b.ordered
  rw [length_toStringPiece, readableBytes]
  rw [prependableBytes] at hroom
  rw [writableBytes] at h hroom
  omega

/-- `makeSpace`, called where `len` bytes do not fit behind: the vector grows,
or what is readable moves to the front. -/
def makeSpace (b : Buffer) (len : ℕ) (h : b.writableBytes < len) : Buffer :=
  if hroom : b.writableBytes + b.prependableBytes < len + kCheapPrepend then
    { b with
      buffer_ := resize b.buffer_ (b.writerIndex_ + len)
      fits := by rw [length_resize]; exact Nat.le_add_right _ _
      cheap := by
        have hcheap := b.cheap
        rw [writableBytes] at h
        rw [length_resize]
        omega }
  else
    have hlen := front_fits h hroom
    { buffer_ := overwrite b.buffer_ kCheapPrepend b.toStringPiece
      readerIndex_ := kCheapPrepend
      writerIndex_ := kCheapPrepend + b.readableBytes
      ordered := Nat.le_add_right _ _
      fits := by rw [length_overwrite hlen, ← length_toStringPiece]; exact hlen
      cheap := by rw [length_overwrite hlen]; exact b.cheap }

/-- No sum of `makeSpace(len)` wraps, and the vector can be as long as it asks. -/
def Sized (b : Buffer) (len : ℕ) : Prop :=
  b.writableBytes + b.prependableBytes < 2 ^ 64 ∧ len + kCheapPrepend < 2 ^ 64 ∧
    b.writerIndex_ + len ≤ MAX_SIZE

instance (b : Buffer) : DecidablePred b.Sized := fun _ => inferInstanceAs (Decidable (_ ∧ _))

/-- The `assert` of `makeSpace` where it moves what is readable. -/
theorem cheap_lt_readerIndex_ {b : Buffer} {len : ℕ} (h : b.writableBytes < len)
    (hroom : ¬ b.writableBytes + b.prependableBytes < len + kCheapPrepend) :
    kCheapPrepend < b.readerIndex_ := by
  rw [prependableBytes] at hroom
  omega

def ensureWritableBytes (b : Buffer) (len : ℕ) : Buffer :=
  if h : b.writableBytes < len then b.makeSpace len h else b

/-- The `assert` at the end of `ensureWritableBytes`. -/
theorem le_writableBytes (b : Buffer) (len : ℕ) :
    len ≤ (b.ensureWritableBytes len).writableBytes := by
  have hfits := b.fits
  have hordered := b.ordered
  rw [ensureWritableBytes]
  split
  · next h =>
    rw [makeSpace]
    split
    · show len ≤ (resize b.buffer_ (b.writerIndex_ + len)).length - b.writerIndex_
      rw [length_resize]
      omega
    · next hroom =>
      show len ≤ (overwrite b.buffer_ kCheapPrepend b.toStringPiece).length -
        (kCheapPrepend + b.readableBytes)
      rw [length_overwrite (front_fits h hroom), readableBytes]
      rw [prependableBytes] at hroom
      rw [writableBytes] at h hroom
      omega
  · next h => omega

/-- `std::copy` behind the readable bytes and `hasWritten`. -/
def write (b : Buffer) (data : Bytes) (h : data.length ≤ b.writableBytes) : Buffer :=
  have hlen : b.writerIndex_ + data.length ≤ b.buffer_.length := by
    have hfits := b.fits
    rw [writableBytes] at h
    omega
  { b with
    buffer_ := overwrite b.buffer_ b.writerIndex_ data
    writerIndex_ := b.writerIndex_ + data.length
    ordered := Nat.le_add_right_of_le b.ordered
    fits := by rw [length_overwrite hlen]; exact hlen
    cheap := by rw [length_overwrite hlen]; exact b.cheap }

def append (b : Buffer) (data : Bytes) : Buffer :=
  (b.ensureWritableBytes data.length).write data (b.le_writableBytes data.length)

def unwrite (b : Buffer) (len : ℕ) : Option Buffer :=
  if h : len ≤ b.readableBytes then
    some { b with
      writerIndex_ := b.writerIndex_ - len
      ordered := by
        have hordered := b.ordered
        rw [readableBytes] at h
        omega
      fits := Nat.le_trans (Nat.sub_le _ _) b.fits }
  else none

def prepend (b : Buffer) (data : Bytes) : Option Buffer :=
  if h : data.length ≤ b.prependableBytes then
    have hlen : b.readerIndex_ - data.length + data.length ≤ b.buffer_.length := by
      have hfits := b.fits
      have hordered := b.ordered
      rw [prependableBytes] at h
      omega
    some { b with
      buffer_ := overwrite b.buffer_ (b.readerIndex_ - data.length) data
      readerIndex_ := b.readerIndex_ - data.length
      ordered := Nat.le_trans (Nat.sub_le _ _) b.ordered
      fits := by rw [length_overwrite hlen]; exact b.fits
      cheap := by rw [length_overwrite hlen]; exact b.cheap }
  else none

/-- `shrink`: the readable bytes in a new buffer. -/
def shrink (b : Buffer) (reserve : ℕ) : Buffer :=
  ((new kInitialSize).ensureWritableBytes (b.readableBytes + reserve)).append b.toStringPiece

/-- The `int` that `toStringPiece` gives is the number of readable bytes, and the sum
with `reserve` does not wrap. -/
def Shrinkable (b : Buffer) (reserve : ℕ) : Prop :=
  b.readableBytes ≤ INT_MAX ∧ b.readableBytes + reserve < 2 ^ 64 ∧
    (new kInitialSize).Sized (b.readableBytes + reserve)

instance (b : Buffer) : DecidablePred b.Shrinkable := fun _ =>
  inferInstanceAs (Decidable (_ ∧ _))

/-- `readFd`, given what `readv` delivered, if it did not fail: into the writable
bytes, and what does not fit there by way of `extrabuf`. -/
def readFd (b : Buffer) (delivered : Option Bytes) : Buffer :=
  match delivered with
  | none => b
  | some data =>
      if h : data.length ≤ b.writableBytes then b.write data h
      else
        have hfull : (data.take b.writableBytes).length ≤ b.writableBytes := by
          rw [List.length_take]
          exact Nat.min_le_left _ _
        (b.write (data.take b.writableBytes) hfull).append (data.drop b.writableBytes)

/-! ## Integers -/

def appendInt (b : Buffer) (n : ℕ) (x : ℤ) : Buffer := b.append (hostToNetwork n x)

def appendInt64 (b : Buffer) (x : ℤ) : Buffer := b.appendInt 8 x

def appendInt32 (b : Buffer) (x : ℤ) : Buffer := b.appendInt 4 x

def appendInt16 (b : Buffer) (x : ℤ) : Buffer := b.appendInt 2 x

def appendInt8 (b : Buffer) (x : ℤ) : Buffer := b.appendInt 1 x

def peekInt (b : Buffer) (n : ℕ) : Option ℤ :=
  if n ≤ b.readableBytes then some (networkToHost (b.toStringPiece.take n)) else none

def peekInt64 (b : Buffer) : Option ℤ := b.peekInt 8

def peekInt32 (b : Buffer) : Option ℤ := b.peekInt 4

def peekInt16 (b : Buffer) : Option ℤ := b.peekInt 2

def peekInt8 (b : Buffer) : Option ℤ := b.peekInt 1

def readInt (b : Buffer) (n : ℕ) : Option (ℤ × Buffer) :=
  (b.peekInt n).bind fun result => (b.retrieve n).map fun b' => (result, b')

def readInt64 (b : Buffer) : Option (ℤ × Buffer) := b.readInt 8

def readInt32 (b : Buffer) : Option (ℤ × Buffer) := b.readInt 4

def readInt16 (b : Buffer) : Option (ℤ × Buffer) := b.readInt 2

def readInt8 (b : Buffer) : Option (ℤ × Buffer) := b.readInt 1

def prependInt (b : Buffer) (n : ℕ) (x : ℤ) : Option Buffer := b.prepend (hostToNetwork n x)

def prependInt64 (b : Buffer) (x : ℤ) : Option Buffer := b.prependInt 8 x

def prependInt32 (b : Buffer) (x : ℤ) : Option Buffer := b.prependInt 4 x

def prependInt16 (b : Buffer) (x : ℤ) : Option Buffer := b.prependInt 2 x

def prependInt8 (b : Buffer) (x : ℤ) : Option Buffer := b.prependInt 1 x

end Buffer

end FileHub.Muduo
