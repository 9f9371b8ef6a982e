import DeadKernel.Foundation.Words

/-! The cyclic buffer of bytes. -/

namespace DeadKernel

open Words

/-- `front` and `rear` are signed in the source; they are kept as machine words here, with -1
as the largest word.
-/
structure CyclicBuffer where
  data : Nat → UInt8
  size : Nat
  count : Nat
  front : Nat
  rear : Nat

/-- `cyclic_buffer_init`, over what lies in the block that `kmalloc` returns. -/
def cyclicBufferInit (block : Nat → UInt8) (size : Nat) : CyclicBuffer where
  data := block
  size
  count := 0
  front := 0
  rear := wordSize - 1

/-- `cyclic_buffer_enqueue`; a full buffer is an error and stays as it is. -/
def cyclicBufferEnqueue (buffer : CyclicBuffer) (value : UInt8) : Option CyclicBuffer :=
  if buffer.count < buffer.size then
    let rear := u32 (buffer.rear + 1) % buffer.size
    some { buffer with
      rear
      data := fun index => if index = rear then value else buffer.data index
      count := buffer.count + 1 }
  else none

/-- `cyclic_buffer_dequeue`; an empty buffer is an error and stays as it is. -/
def cyclicBufferDequeue (buffer : CyclicBuffer) : Option (UInt8 × CyclicBuffer) :=
  if 0 < buffer.count then
    some (buffer.data buffer.front,
      { buffer with
        front := u32 (buffer.front + 1) % buffer.size
        count := buffer.count - 1 })
  else none

/-- `cyclic_buffer_read` leaves the byte where it is. -/
def cyclicBufferRead (buffer : CyclicBuffer) : Option UInt8 :=
  if 0 < buffer.count then some (buffer.data buffer.front) else none

def cyclicBufferClear (buffer : CyclicBuffer) : CyclicBuffer :=
  { buffer with front := 0, rear := wordSize - 1, count := 0 }

/-- A byte that is enqueued or refused leaves the count no smaller. -/
theorem count_le_enqueue (buffer : CyclicBuffer) (value : UInt8)
    : buffer.count ≤ ((cyclicBufferEnqueue buffer value).getD buffer).count := by
  rw [cyclicBufferEnqueue]
  split
  · exact Nat.le_succ buffer.count
  · exact le_refl _

theorem dequeue_eq {buffer : CyclicBuffer} (some : 0 < buffer.count)
    : cyclicBufferDequeue buffer
      = Option.some (buffer.data buffer.front,
        { buffer with
          front := u32 (buffer.front + 1) % buffer.size
          count := buffer.count - 1 }) :=
  if_pos some

end DeadKernel
