import FileHub.Lib.Refines
import FileHub.Muduo.Buffer

/-!
# The buffer is a queue of bytes

Between its indices a `Buffer` holds what was appended and not yet retrieved.
Each operation is read off its copies: what it leaves between the indices, and
how far the readable bytes stay from the front. `ByteQueue` says what that
amounts to, and `Refines.runCalls` carries it over whole sequences of calls,
whenever and however the vector grows or the bytes move to its front.
-/

namespace FileHub.Muduo

open Lib

/-! ## Copying -/

theorem drop_overwrite {buf data : Bytes} {i : ℕ} (h : i + data.length ≤ buf.length) :
    (overwrite buf i data).drop i = data ++ buf.drop (i + data.length) := by
  have hlen : (buf.take i).length = i := by
    rw [List.length_take]
    omega
  rw [overwrite, List.append_assoc, List.drop_append_of_le_length (by omega),
    List.drop_of_length_le (by omega), List.nil_append]

/-- What stands in front of the copied bytes, read on to their end. -/
theorem take_overwrite {buf data : Bytes} {r w : ℕ} (hr : r ≤ w)
    (h : w + data.length ≤ buf.length) :
    ((overwrite buf w data).drop r).take (w + data.length - r) =
      (buf.drop r).take (w - r) ++ data := by
  have hlen : (buf.take w).length = w := by
    rw [List.length_take]
    omega
  have hfront : ((buf.take w).drop r).length = w - r := by rw [List.length_drop, hlen]
  have hsum : w + data.length - r = ((buf.take w).drop r).length + data.length := by omega
  rw [overwrite, List.append_assoc, List.drop_append_of_le_length (by omega), hsum,
    List.take_length_add_append, List.take_left, List.drop_take]

theorem take_resize {buf : Bytes} {r w n : ℕ} (hr : r ≤ w) (hw : w ≤ buf.length) (hn : w ≤ n) :
    ((resize buf n).drop r).take (w - r) = (buf.drop r).take (w - r) := by
  rw [resize, ← List.drop_take, ← List.drop_take]
  congr 1
  have hsum : r + (w - r) = w := by omega
  by_cases h : n ≤ buf.length
  · rw [List.take_append_of_le_length (by rw [List.length_take]; omega), List.take_take,
      Nat.min_eq_left hn]
  · rw [List.take_of_length_le (by omega : buf.length ≤ n),
      List.take_append_of_le_length hw]

namespace Buffer

/-! ## What each operation does to the readable bytes -/

theorem toStringPiece_new (initialSize : ℕ) : (new initialSize).toStringPiece = [] := by
  rw [toStringPiece, readableBytes]
  show List.take (kCheapPrepend - kCheapPrepend) _ = []
  rw [Nat.sub_self, List.take_zero]

theorem toStringPiece_retrieveAll (b : Buffer) : b.retrieveAll.toStringPiece = [] := by
  rw [toStringPiece, readableBytes]
  show List.take (kCheapPrepend - kCheapPrepend) _ = []
  rw [Nat.sub_self, List.take_zero]

theorem toStringPiece_makeSpace (b : Buffer) (len : ℕ) (h : b.writableBytes < len) :
    (b.makeSpace len h).toStringPiece = b.toStringPiece := by
  rw [makeSpace]
  split
  · exact take_resize b.ordered b.fits (Nat.le_add_right _ _)
  · next hroom =>
    have hlen := front_fits h hroom
    show ((overwrite b.buffer_ kCheapPrepend b.toStringPiece).drop kCheapPrepend).take
      (kCheapPrepend + b.readableBytes - kCheapPrepend) = b.toStringPiece
    rw [drop_overwrite hlen, Nat.add_sub_cancel_left, ← length_toStringPiece, List.take_left]

theorem toStringPiece_ensureWritableBytes (b : Buffer) (len : ℕ) :
    (b.ensureWritableBytes len).toStringPiece = b.toStringPiece := by
  rw [ensureWritableBytes]
  split
  · exact toStringPiece_makeSpace b len _
  · rfl

theorem toStringPiece_write (b : Buffer) (data : Bytes) (h : data.length ≤ b.writableBytes) :
    (b.write data h).toStringPiece = b.toStringPiece ++ data := by
  have hfits := b.fits
  rw [writableBytes] at h
  exact take_overwrite b.ordered (by omega)

theorem toStringPiece_append (b : Buffer) (data : Bytes) :
    (b.append data).toStringPiece = b.toStringPiece ++ data := by
  rw [append, toStringPiece_write, toStringPiece_ensureWritableBytes]

theorem toStringPiece_readFd (b : Buffer) (data : Bytes) :
    (b.readFd (some data)).toStringPiece = b.toStringPiece ++ data := by
  rw [readFd]
  split
  · exact toStringPiece_write b data _
  · rw [toStringPiece_append, toStringPiece_write, List.append_assoc, List.take_append_drop]

theorem toStringPiece_shrink (b : Buffer) (reserve : ℕ) :
    (b.shrink reserve).toStringPiece = b.toStringPiece := by
  rw [shrink, toStringPiece_append, toStringPiece_ensureWritableBytes, toStringPiece_new,
    List.nil_append]

theorem toStringPiece_retrieve {b b' : Buffer} {len : ℕ} (h : b.retrieve len = some b') :
    b'.toStringPiece = b.toStringPiece.drop len := by
  rw [retrieve] at h
  split at h
  · next hle =>
    split at h
    · next hlt =>
      cases h
      show (b.buffer_.drop (b.readerIndex_ + len)).take (b.writerIndex_ - (b.readerIndex_ + len)) =
        ((b.buffer_.drop b.readerIndex_).take (b.writerIndex_ - b.readerIndex_)).drop len
      rw [List.drop_take, List.drop_drop, Nat.sub_sub]
    · next hge =>
      cases h
      rw [toStringPiece_retrieveAll]
      refine (List.drop_of_length_le ?_).symm
      rw [length_toStringPiece]
      omega
  · cases h

theorem toStringPiece_unwrite {b b' : Buffer} {len : ℕ} (h : b.unwrite len = some b') :
    b'.toStringPiece = b.toStringPiece.take (b.toStringPiece.length - len) := by
  rw [unwrite] at h
  split at h
  · next hle =>
    cases h
    rw [length_toStringPiece]
    show (b.buffer_.drop b.readerIndex_).take (b.writerIndex_ - len - b.readerIndex_) =
      ((b.buffer_.drop b.readerIndex_).take b.readableBytes).take (b.readableBytes - len)
    rw [List.take_take, readableBytes]
    congr 1
    omega
  · cases h

theorem toStringPiece_prepend {b b' : Buffer} {data : Bytes} (h : b.prepend data = some b') :
    b'.toStringPiece = data ++ b.toStringPiece := by
  have hfits := b.fits
  have hordered := b.ordered
  rw [prepend] at h
  split at h
  · next hle =>
    cases h
    rw [prependableBytes] at hle
    show ((overwrite b.buffer_ (b.readerIndex_ - data.length) data).drop
        (b.readerIndex_ - data.length)).take (b.writerIndex_ - (b.readerIndex_ - data.length)) =
      data ++ (b.buffer_.drop b.readerIndex_).take (b.writerIndex_ - b.readerIndex_)
    have hat : b.readerIndex_ - data.length + data.length = b.readerIndex_ := by omega
    have hsum : b.writerIndex_ - (b.readerIndex_ - data.length) =
        data.length + (b.writerIndex_ - b.readerIndex_) := by omega
    rw [drop_overwrite (by omega), hat, hsum, List.take_length_add_append]
  · cases h

/-! ## The room in front

An operation that has no business in front of the readable bytes leaves the
`kCheapPrepend` bytes there that it found: it moves them by whole vectors only. -/

theorem room_ensureWritableBytes {b : Buffer} {room : ℕ} (hcheap : room ≤ kCheapPrepend)
    (h : room ≤ b.readerIndex_) (len : ℕ) : room ≤ (b.ensureWritableBytes len).readerIndex_ := by
  rw [ensureWritableBytes]
  split
  · rw [makeSpace]
    split
    · exact h
    · exact hcheap
  · exact h

theorem room_write {b : Buffer} {room : ℕ} (h : room ≤ b.readerIndex_) {data : Bytes}
    (hfit : data.length ≤ b.writableBytes) : room ≤ (b.write data hfit).readerIndex_ :=
  h

theorem room_append {b : Buffer} {room : ℕ} (hcheap : room ≤ kCheapPrepend)
    (h : room ≤ b.readerIndex_) (data : Bytes) : room ≤ (b.append data).readerIndex_ :=
  room_write (room_ensureWritableBytes hcheap h data.length) _

theorem room_readFd {b : Buffer} {room : ℕ} (hcheap : room ≤ kCheapPrepend)
    (h : room ≤ b.readerIndex_) (delivered : Option Bytes) :
    room ≤ (b.readFd delivered).readerIndex_ := by
  cases delivered with
  | none => exact h
  | some data =>
    rw [readFd]
    split
    · exact room_write h _
    · exact room_append hcheap (room_write h _) _

theorem room_shrink (b : Buffer) (reserve : ℕ) : kCheapPrepend ≤ (b.shrink reserve).readerIndex_ :=
  room_append (Nat.le_refl _)
    (room_ensureWritableBytes (Nat.le_refl _) (Nat.le_refl _) _) _

theorem room_retrieve {b b' : Buffer} {room len : ℕ} (h : room ≤ b.readerIndex_)
    (hb' : b.retrieve len = some b') : min kCheapPrepend (room + len) ≤ b'.readerIndex_ := by
  rw [retrieve] at hb'
  split at hb'
  · split at hb'
    · cases hb'
      exact Nat.le_trans (Nat.min_le_right _ _) (Nat.add_le_add_right h len)
    · cases hb'
      exact Nat.min_le_left _ _
  · cases hb'

theorem room_unwrite {b b' : Buffer} {room len : ℕ} (h : room ≤ b.readerIndex_)
    (hb' : b.unwrite len = some b') : room ≤ b'.readerIndex_ := by
  rw [unwrite] at hb'
  split at hb'
  · cases hb'
    exact h
  · cases hb'

theorem room_prepend {b b' : Buffer} {room : ℕ} {data : Bytes} (h : room ≤ b.readerIndex_)
    (hb' : b.prepend data = some b') : room - data.length ≤ b'.readerIndex_ := by
  rw [prepend] at hb'
  split at hb'
  · cases hb'
    exact Nat.sub_le_sub_right h data.length
  · cases hb'

/-! ## The length of the vector

Only `makeSpace` makes it longer, by what is asked for at most. -/

theorem length_ensureWritableBytes (b : Buffer) (len : ℕ) :
    (b.ensureWritableBytes len).buffer_.length ≤ b.buffer_.length + len := by
  have hfits := b.fits
  rw [ensureWritableBytes]
  split
  · next h =>
    rw [makeSpace]
    split
    · show (resize b.buffer_ (b.writerIndex_ + len)).length ≤ _
      rw [length_resize]
      omega
    · next hroom =>
      show (overwrite b.buffer_ kCheapPrepend b.toStringPiece).length ≤ _
      rw [length_overwrite (front_fits h hroom)]
      omega
  · omega

theorem length_write (b : Buffer) (data : Bytes) (h : data.length ≤ b.writableBytes) :
    (b.write data h).buffer_.length = b.buffer_.length := by
  have hfits := b.fits
  rw [writableBytes] at h
  exact length_overwrite (by omega)

theorem length_append (b : Buffer) (data : Bytes) :
    (b.append data).buffer_.length ≤ b.buffer_.length + data.length := by
  rw [append, length_write]
  exact length_ensureWritableBytes b data.length

theorem length_readFd (b : Buffer) (delivered : Option Bytes) :
    (b.readFd delivered).buffer_.length ≤ b.buffer_.length + (delivered.getD []).length := by
  cases delivered with
  | none => exact Nat.le_add_right _ _
  | some data =>
    rw [readFd, Option.getD_some]
    split
    · rw [length_write]
      exact Nat.le_add_right _ _
    · have happend := length_append (b.write (data.take b.writableBytes) (by simp))
        (data.drop b.writableBytes)
      rw [length_write, List.length_drop] at happend
      exact happend.trans (by omega)

/-- What `shrink` ensures is enough for the bytes it copies. -/
theorem length_shrink (b : Buffer) (reserve : ℕ) : (b.shrink reserve).buffer_.length ≤
    kCheapPrepend + kInitialSize + (b.readableBytes + reserve) := by
  have hroom := le_writableBytes (new kInitialSize) (b.readableBytes + reserve)
  have hgrown := length_ensureWritableBytes (new kInitialSize) (b.readableBytes + reserve)
  have hnew : (new kInitialSize).buffer_.length = kCheapPrepend + kInitialSize :=
    List.length_replicate
  rw [hnew] at hgrown
  rw [shrink, append, length_write]
  generalize (new kInitialSize).ensureWritableBytes (b.readableBytes + reserve) = other at *
  rw [length_toStringPiece, ensureWritableBytes, dif_neg (by omega)]
  exact hgrown

theorem length_retrieve {b b' : Buffer} {len : ℕ} (h : b.retrieve len = some b') :
    b'.buffer_.length = b.buffer_.length := by
  rw [retrieve] at h
  split at h
  · split at h <;> cases h <;> rfl
  · cases h

theorem length_unwrite {b b' : Buffer} {len : ℕ} (h : b.unwrite len = some b') :
    b'.buffer_.length = b.buffer_.length := by
  rw [unwrite] at h
  split at h <;> cases h
  rfl

theorem length_prepend {b b' : Buffer} {data : Bytes} (h : b.prepend data = some b') :
    b'.buffer_.length = b.buffer_.length := by
  have hfits := b.fits
  have hordered := b.ordered
  rw [prepend] at h
  split at h
  · next hle =>
    cases h
    rw [prependableBytes] at hle
    exact length_overwrite (by omega)
  · cases h

/-! ## The asserts -/

theorem retrieve_isSome {b : Buffer} {len : ℕ} (h : len ≤ b.toStringPiece.length) :
    (b.retrieve len).isSome = true := by
  rw [length_toStringPiece] at h
  rw [retrieve, if_pos h]
  split <;> rfl

theorem unwrite_isSome {b : Buffer} {len : ℕ} (h : len ≤ b.toStringPiece.length) :
    (b.unwrite len).isSome = true := by
  rw [length_toStringPiece] at h
  rw [unwrite, dif_pos h]
  rfl

theorem prepend_isSome {b : Buffer} {data : Bytes} (h : data.length ≤ b.readerIndex_) :
    (b.prepend data).isSome = true := by
  rw [prepend, dif_pos (show data.length ≤ b.prependableBytes from h)]
  rfl

end Buffer

/-! ## The queue -/

/-- The member functions that take bytes in or give bytes out. -/
inductive BufferCall where
  | append (data : Bytes)
  | readFd (delivered : Option Bytes)
  | prepend (data : Bytes)
  | ensureWritableBytes (len : ℕ)
  | shrink (reserve : ℕ)
  | unwrite (len : ℕ)
  | retrieve (len : ℕ)
  | retrieveAsString (len : ℕ)
  | retrieveAllAsString

/-- The call on a buffer: what it returns, and the buffer after it. A call whose
sizes do not add up has no result. -/
def Buffer.call (b : Buffer) : BufferCall → Option (Bytes × Buffer)
  | .append data => if b.Sized data.length then some ([], b.append data) else none
  | .readFd delivered =>
      if b.Sized (delivered.getD []).length then some ([], b.readFd delivered) else none
  | .prepend data => (b.prepend data).map fun b' => ([], b')
  | .ensureWritableBytes len =>
      if b.Sized len then some ([], b.ensureWritableBytes len) else none
  | .shrink reserve => if b.Shrinkable reserve then some ([], b.shrink reserve) else none
  | .unwrite len => (b.unwrite len).map fun b' => ([], b')
  | .retrieve len => (b.retrieve len).map fun b' => ([], b')
  | .retrieveAsString len => b.retrieveAsString len
  | .retrieveAllAsString => b.retrieveAllAsString

/-- What a buffer is for: a queue of bytes with room for headers in front,
`kCheapPrepend` bytes at most. It takes as much in all as fits a vector: `size` is
what was asked for since the last `shrink`. -/
structure ByteQueue where
  content : Bytes
  room : ℕ
  size : ℕ
  cheap : room ≤ kCheapPrepend
  sized : size ≤ MAX_SIZE

namespace ByteQueue

def empty (initialSize : ℕ) (h : kCheapPrepend + initialSize ≤ MAX_SIZE) : ByteQueue :=
  ⟨[], kCheapPrepend, kCheapPrepend + initialSize, Nat.le_refl _, h⟩

/-- `len` bytes are asked for. -/
def grow (q : ByteQueue) (len : ℕ) : Option ByteQueue :=
  if h : q.size + len ≤ MAX_SIZE then some { q with size := q.size + len, sized := h } else none

/-- Bytes that leave at the front make room there. -/
def dequeue (q : ByteQueue) (len : ℕ) : ByteQueue :=
  { q with
    content := q.content.drop len
    room := min kCheapPrepend (q.room + len)
    cheap := Nat.min_le_left _ _ }

/-- The contract of each call. -/
def call (q : ByteQueue) : BufferCall → Option (Bytes × ByteQueue)
  | .append data =>
      (q.grow data.length).map fun q => ([], { q with content := q.content ++ data })
  | .readFd delivered =>
      (q.grow (delivered.getD []).length).map fun q =>
        ([], { q with content := q.content ++ delivered.getD [] })
  | .prepend data =>
      if data.length ≤ q.room then
        some ([], { q with
          content := data ++ q.content
          room := q.room - data.length
          cheap := Nat.le_trans (Nat.sub_le _ _) q.cheap })
      else none
  | .ensureWritableBytes len => (q.grow len).map fun q => ([], q)
  | .shrink reserve =>
      if h : q.content.length ≤ INT_MAX ∧
          kCheapPrepend + kInitialSize + (q.content.length + reserve) ≤ MAX_SIZE then
        some ([], ⟨q.content, kCheapPrepend, _, Nat.le_refl _, h.2⟩)
      else none
  | .unwrite len =>
      if len ≤ q.content.length then
        some ([], { q with content := q.content.take (q.content.length - len) })
      else none
  | .retrieve len => if len ≤ q.content.length then some ([], q.dequeue len) else none
  | .retrieveAsString len =>
      if len ≤ q.content.length then some (q.content.take len, q.dequeue len) else none
  | .retrieveAllAsString => some (q.content, q.dequeue q.content.length)

end ByteQueue

/-- The buffer holds the queue, with at least its room in front and in a vector of
its size at most. -/
structure Holds (b : Buffer) (q : ByteQueue) : Prop where
  content : b.toStringPiece = q.content
  room : q.room ≤ b.readerIndex_
  size : b.buffer_.length ≤ q.size

theorem holds_new (initialSize : ℕ) (h : kCheapPrepend + initialSize ≤ MAX_SIZE) :
    Holds (Buffer.new initialSize) (.empty initialSize h) :=
  ⟨Buffer.toStringPiece_new initialSize, Nat.le_refl _, List.length_replicate.le⟩

/-- What the queue has the size for, the vector has. -/
theorem Holds.sized {b : Buffer} {q : ByteQueue} (hq : Holds b q) {len : ℕ}
    (h : q.size + len ≤ MAX_SIZE) : b.Sized len := by
  have hsize := hq.size
  have hfits := b.fits
  have hordered := b.ordered
  have hmax : MAX_SIZE = 2 ^ 63 - 1 := rfl
  have hcheap : kCheapPrepend = 8 := rfl
  rw [Buffer.Sized, Buffer.writableBytes, Buffer.prependableBytes]
  omega

theorem Holds.shrinkable {b : Buffer} {q : ByteQueue} (hq : Holds b q) {reserve : ℕ}
    (hint : q.content.length ≤ INT_MAX)
    (h : kCheapPrepend + kInitialSize + (q.content.length + reserve) ≤ MAX_SIZE) :
    b.Shrinkable reserve := by
  have hmax : MAX_SIZE = 2 ^ 63 - 1 := rfl
  have hnew : kCheapPrepend + kInitialSize ≤ MAX_SIZE := by decide
  rw [← hq.content, Buffer.length_toStringPiece] at hint h
  exact ⟨hint, by omega, (holds_new kInitialSize hnew).sized h⟩

theorem ByteQueue.grow_eq_some {q q' : ByteQueue} {len : ℕ} (h : q.grow len = some q') :
    ∃ hsize : q.size + len ≤ MAX_SIZE, q' = { q with size := q.size + len, sized := hsize } := by
  rw [grow] at h
  split at h
  · next hsize => exact ⟨hsize, (Option.some.inj h).symm⟩
  · cases h

theorem Holds.retrieve {b : Buffer} {q : ByteQueue} (hq : Holds b q) {len : ℕ}
    (hlen : len ≤ q.content.length) :
    ∃ b', b.retrieve len = some b' ∧ Holds b' (q.dequeue len) := by
  rw [← hq.content] at hlen
  obtain ⟨b', hb'⟩ := Option.isSome_iff_exists.1 (Buffer.retrieve_isSome hlen)
  refine ⟨b', hb', ?_, Buffer.room_retrieve hq.room hb', ?_⟩
  · rw [Buffer.toStringPiece_retrieve hb', hq.content]
    rfl
  · exact (Buffer.length_retrieve hb').trans_le hq.size

theorem Holds.retrieveAsString {b : Buffer} {q : ByteQueue} (hq : Holds b q) {len : ℕ}
    (hlen : len ≤ q.content.length) :
    ∃ b', b.retrieveAsString len = some (q.content.take len, b') ∧ Holds b' (q.dequeue len) := by
  obtain ⟨b', hb', hq'⟩ := hq.retrieve hlen
  refine ⟨b', ?_, hq'⟩
  rw [Buffer.retrieveAsString, hb', hq.content, Option.map_some]

/-- Every call that the queue answers, the buffer answers alike. -/
theorem buffer_refines : Refines Holds Buffer.call ByteQueue.call where
  answers := by
    intro b q call out q' hq hcall
    cases call with
    | append data =>
      obtain ⟨q₁, hgrow, heq⟩ := Option.map_eq_some_iff.1 hcall
      obtain ⟨hsize, rfl⟩ := ByteQueue.grow_eq_some hgrow
      cases heq
      refine ⟨_, if_pos (hq.sized hsize), ?_, Buffer.room_append q.cheap hq.room data, ?_⟩
      · rw [Buffer.toStringPiece_append, hq.content]
      · exact (Buffer.length_append b data).trans (Nat.add_le_add_right hq.size _)
    | readFd delivered =>
      obtain ⟨q₁, hgrow, heq⟩ := Option.map_eq_some_iff.1 hcall
      obtain ⟨hsize, rfl⟩ := ByteQueue.grow_eq_some hgrow
      cases heq
      refine ⟨_, if_pos (hq.sized hsize), ?_, Buffer.room_readFd q.cheap hq.room delivered, ?_⟩
      · cases delivered with
        | none => exact hq.content.trans (List.append_nil _).symm
        | some data => rw [Buffer.toStringPiece_readFd, hq.content]; rfl
      · exact (Buffer.length_readFd b delivered).trans (Nat.add_le_add_right hq.size _)
    | prepend data =>
      rw [ByteQueue.call] at hcall
      split at hcall
      · next hle =>
        cases hcall
        obtain ⟨b', hb'⟩ := Option.isSome_iff_exists.1
          (Buffer.prepend_isSome (Nat.le_trans hle hq.room))
        refine ⟨b', ?_, ?_, Buffer.room_prepend hq.room hb', ?_⟩
        · rw [Buffer.call, hb', Option.map_some]
        · rw [Buffer.toStringPiece_prepend hb', hq.content]
        · exact (Buffer.length_prepend hb').trans_le hq.size
      · cases hcall
    | ensureWritableBytes len =>
      obtain ⟨q₁, hgrow, heq⟩ := Option.map_eq_some_iff.1 hcall
      obtain ⟨hsize, rfl⟩ := ByteQueue.grow_eq_some hgrow
      cases heq
      refine ⟨_, if_pos (hq.sized hsize), ?_,
        Buffer.room_ensureWritableBytes q.cheap hq.room len, ?_⟩
      · rw [Buffer.toStringPiece_ensureWritableBytes, hq.content]
      · exact (Buffer.length_ensureWritableBytes b len).trans (Nat.add_le_add_right hq.size _)
    | shrink reserve =>
      rw [ByteQueue.call] at hcall
      split at hcall
      · next h =>
        cases hcall
        refine ⟨_, if_pos (hq.shrinkable h.1 h.2), ?_, Buffer.room_shrink b reserve, ?_⟩
        · rw [Buffer.toStringPiece_shrink, hq.content]
        · have hlen := Buffer.length_shrink b reserve
          rwa [← Buffer.length_toStringPiece, hq.content] at hlen
      · cases hcall
    | unwrite len =>
      rw [ByteQueue.call] at hcall
      split at hcall
      · next hle =>
        cases hcall
        rw [← hq.content] at hle
        obtain ⟨b', hb'⟩ := Option.isSome_iff_exists.1 (Buffer.unwrite_isSome hle)
        refine ⟨b', ?_, ?_, Buffer.room_unwrite hq.room hb', ?_⟩
        · rw [Buffer.call, hb', Option.map_some]
        · rw [Buffer.toStringPiece_unwrite hb', hq.content]
        · exact (Buffer.length_unwrite hb').trans_le hq.size
      · cases hcall
    | retrieve len =>
      rw [ByteQueue.call] at hcall
      split at hcall
      · next hle =>
        cases hcall
        obtain ⟨b', hb', hq'⟩ := hq.retrieve hle
        exact ⟨b', by rw [Buffer.call, hb', Option.map_some], hq'⟩
      · cases hcall
    | retrieveAsString len =>
      rw [ByteQueue.call] at hcall
      split at hcall
      · next hle =>
        cases hcall
        exact hq.retrieveAsString hle
      · cases hcall
    | retrieveAllAsString =>
      cases hcall
      obtain ⟨b', hb', hq'⟩ := hq.retrieveAsString (Nat.le_refl q.content.length)
      rw [List.take_length] at hb'
      refine ⟨b', ?_, hq'⟩
      rw [Buffer.call, Buffer.retrieveAllAsString, ← Buffer.length_toStringPiece, hq.content, hb']

/-- A buffer of any initial size that a vector has answers a sequence of calls as a
queue of bytes does: no `assert` fails and no size wraps that the queue does not
refuse, nothing that was taken in is lost, changed or given out twice, and the room
in front stays. -/
theorem buffer_calls (initialSize : ℕ) (hsize : kCheapPrepend + initialSize ≤ MAX_SIZE)
    {calls : List BufferCall} {outs : List Bytes} {q : ByteQueue}
    (h : runCalls ByteQueue.call (.empty initialSize hsize) calls = some (outs, q)) :
    ∃ b, runCalls Buffer.call (Buffer.new initialSize) calls = some (outs, b) ∧
      b.toStringPiece = q.content ∧ q.room ≤ b.prependableBytes := by
  obtain ⟨b, hrun, hq⟩ := buffer_refines.runCalls (holds_new initialSize hsize) h
  exact ⟨b, hrun, hq.content, hq.room⟩

/-- A message goes out behind its length, after what `readFd` put there was taken. -/
def framedCalls : List BufferCall :=
  [.readFd (some (ascii "GET")), .retrieveAsString 2, .shrink 16, .append (ascii "body"),
    .prepend (ascii "5"), .retrieveAllAsString]

theorem framedCalls_answered :
    ∃ b, runCalls Buffer.call (Buffer.new 2) framedCalls =
        some ([[], ascii "GE", [], [], [], ascii "5Tbody"], b) ∧
      b.toStringPiece = [] ∧ kCheapPrepend ≤ b.prependableBytes :=
  buffer_calls 2 (by decide) (q := ⟨[], kCheapPrepend, 1053, by decide, by decide⟩) rfl

/-! ## Integers -/

namespace Buffer

theorem readInt_of_content {b : Buffer} {n : ℕ} {x : ℤ} {rest : Bytes} (hx : FitsBytes n x)
    (h : b.toStringPiece = hostToNetwork n x ++ rest) :
    ∃ b', b.readInt n = some (x, b') ∧ b'.toStringPiece = rest := by
  have hn := length_hostToNetwork n x
  have hle : n ≤ b.toStringPiece.length := by
    rw [h, List.length_append, hn]
    exact Nat.le_add_right _ _
  obtain ⟨b', hb'⟩ := Option.isSome_iff_exists.1 (retrieve_isSome hle)
  refine ⟨b', ?_, ?_⟩
  · rw [length_toStringPiece] at hle
    rw [readInt, peekInt, if_pos hle, Option.bind_some, hb', Option.map_some, h,
      List.take_left' hn, networkToHost_hostToNetwork hx]
  · rw [toStringPiece_retrieve hb', h, List.drop_left' hn]

/-- A header that was prepended is read first, and leaves the message as it was. -/
theorem readInt_prependInt {b b₁ : Buffer} {n : ℕ} {x : ℤ} (hx : FitsBytes n x)
    (h : b.prependInt n x = some b₁) :
    ∃ b', b₁.readInt n = some (x, b') ∧ b'.toStringPiece = b.toStringPiece :=
  readInt_of_content hx (toStringPiece_prepend h)

/-- A message of integers, each with its width. -/
def appendInts (b : Buffer) (xs : List (ℕ × ℤ)) : Buffer :=
  xs.foldl (fun b x => b.appendInt x.1 x.2) b

/-- The message read back by its widths. -/
def readInts (b : Buffer) (widths : List ℕ) : Option (List ℤ × Buffer) :=
  runCalls readInt b widths

theorem toStringPiece_appendInts (b : Buffer) (xs : List (ℕ × ℤ)) :
    (b.appendInts xs).toStringPiece =
      b.toStringPiece ++ xs.flatMap fun x => hostToNetwork x.1 x.2 := by
  induction xs generalizing b with
  | nil => exact (List.append_nil _).symm
  | cons x xs ih =>
    rw [appendInts, List.foldl_cons, ← appendInts, ih, appendInt, toStringPiece_append,
      List.flatMap_cons, List.append_assoc]

theorem readInts_of_content {xs : List (ℕ × ℤ)} (hxs : ∀ x ∈ xs, FitsBytes x.1 x.2) {rest : Bytes} :
    ∀ {b : Buffer}, b.toStringPiece = (xs.flatMap fun x => hostToNetwork x.1 x.2) ++ rest →
      ∃ b', b.readInts (xs.map Prod.fst) = some (xs.map Prod.snd, b') ∧
        b'.toStringPiece = rest := by
  induction xs with
  | nil =>
    intro b h
    exact ⟨b, rfl, h⟩
  | cons x xs ih =>
    intro b h
    rw [List.flatMap_cons, List.append_assoc] at h
    obtain ⟨b₁, hread, hb₁⟩ := readInt_of_content (hxs x List.mem_cons_self) h
    obtain ⟨b', hreads, hb'⟩ := ih (fun y hy => hxs y (List.mem_cons_of_mem x hy)) hb₁
    refine ⟨b', ?_, hb'⟩
    rw [readInts] at hreads
    simp only [readInts, List.map_cons, runCalls, hread, hreads, Option.bind_some, Option.map_some]

/-- The integers of a message come back, each with its sign, whatever was appended
behind them. -/
theorem readInts_appendInts {b : Buffer} (hb : b.toStringPiece = []) {xs : List (ℕ × ℤ)}
    (hxs : ∀ x ∈ xs, FitsBytes x.1 x.2) (more : Bytes) :
    ∃ b', ((b.appendInts xs).append more).readInts (xs.map Prod.fst) =
        some (xs.map Prod.snd, b') ∧ b'.toStringPiece = more := by
  refine readInts_of_content hxs ?_
  rw [toStringPiece_append, toStringPiece_appendInts, hb, List.nil_append]

/-- A length, a negative code and a byte. -/
theorem sentInts_read_back :
    ∃ b', (((new 4).appendInts [(4, 7), (8, -2), (1, -128)]).append (ascii "ok")).readInts
        [4, 8, 1] = some ([7, -2, -128], b') ∧ b'.toStringPiece = ascii "ok" :=
  readInts_appendInts (toStringPiece_new 4) (by decide) (ascii "ok")

end Buffer

end FileHub.Muduo
