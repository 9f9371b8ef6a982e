import DeadKernel.Foundation.BoundedQueue
import DeadKernel.Foundation.Simulation
import DeadKernel.Io.CyclicBuffer
import Mathlib.Data.Nat.ModEq

/-! The cyclic buffer as a queue of bytes. -/

namespace DeadKernel

open Words

/-- The buffer holds `contents`, the oldest byte first. -/
structure Holds (size : Nat) (buffer : CyclicBuffer) (contents : List UInt8) : Prop where
  capacity : buffer.size = size
  small : size < 2147483648
  count : buffer.count = contents.length
  fits : contents.length ≤ size
  front : 0 < size → buffer.front < size
  rear : 0 < size → u32 (buffer.rear + 1) % size = (buffer.front + contents.length) % size
  bytes : ∀ i, (h : i < contents.length)
    → buffer.data ((buffer.front + i) % size) = contents.get ⟨i, h⟩

/-- A fresh buffer holds nothing. -/
theorem cyclicBufferInit_holds (block : Nat → UInt8) {size : Nat} (small : size < 2147483648)
    : Holds size (cyclicBufferInit block size) [] where
  capacity := rfl
  small := small
  count := rfl
  fits := Nat.zero_le size
  front positive := positive
  rear _ := by
    have wraps : u32 (wordSize - 1 + 1) = 0 := by decide
    simp only [cyclicBufferInit, wraps, List.length_nil]
  bytes i inside := absurd inside (Nat.not_lt_zero i)

/-- The place behind the last byte is no place of the queue. -/
theorem index_ne_next {front i length size : Nat} (inside : i < length) (room : length < size)
    : (front + i) % size ≠ (front + length) % size := by
  intro same
  have modulo : i % size = length % size := Nat.ModEq.add_left_cancel' front same
  rw [Nat.mod_eq_of_lt (inside.trans room), Nat.mod_eq_of_lt room] at modulo
  exact absurd modulo (Nat.ne_of_lt inside)

section Holds

variable {size : Nat} {buffer : CyclicBuffer} {contents : List UInt8}

theorem Holds.enqueue (h : Holds size buffer contents) (room : contents.length < size)
    (value : UInt8)
    : ∃ buffer', cyclicBufferEnqueue buffer value = some buffer'
        ∧ Holds size buffer' (contents ++ [value]) := by
  have positive : 0 < size := by omega
  have small := h.small
  have rear := h.rear positive
  have free : buffer.count < buffer.size := by
    rw [h.count, h.capacity]
    exact room
  rw [cyclicBufferEnqueue, if_pos free]
  refine ⟨_, rfl, ?_⟩
  refine ⟨h.capacity, small, ?_, ?_, h.front, fun _ => ?_, fun i inside => ?_⟩
  · simp only [h.count, List.length_append, List.length_singleton]
  · simp only [List.length_append, List.length_singleton]
    exact room
  · have below := Nat.mod_lt (buffer.front + contents.length) positive
    have next : u32 ((buffer.front + contents.length) % size + 1)
        = (buffer.front + contents.length) % size + 1 := by
      refine u32_of_lt ?_
      simp only [wordSize]
      omega
    simp only [h.capacity, rear, next, List.length_append, List.length_singleton]
    rw [Nat.mod_add_mod, Nat.add_assoc]
  · simp only [h.capacity, rear]
    rw [List.length_append, List.length_singleton] at inside
    by_cases last : i = contents.length
    · subst last
      rw [if_pos rfl]
      simp
    · have old : i < contents.length := by omega
      rw [if_neg (index_ne_next old room), h.bytes i old]
      simp only [List.get_eq_getElem, List.getElem_append_left old]

theorem Holds.enqueue_full (h : Holds size buffer contents) (full : ¬ contents.length < size)
    (value : UInt8)
    : cyclicBufferEnqueue buffer value = none := by
  have noRoom : ¬ buffer.count < buffer.size := by
    rw [h.count, h.capacity]
    exact full
  rw [cyclicBufferEnqueue, if_neg noRoom]

theorem Holds.empty (h : Holds size buffer []) : ¬ 0 < buffer.count := by
  rw [h.count]
  exact Nat.lt_irrefl 0

/-- The byte at the front is the oldest one. -/
theorem Holds.first {first : UInt8} {rest : List UInt8} (h : Holds size buffer (first :: rest))
    : 0 < buffer.count ∧ buffer.data buffer.front = first := by
  have fits := h.fits
  have oldest := h.bytes 0 (Nat.zero_lt_succ rest.length)
  rw [List.length_cons] at fits
  rw [Nat.add_zero, Nat.mod_eq_of_lt (h.front (by omega))] at oldest
  refine ⟨?_, oldest⟩
  rw [h.count]
  exact Nat.zero_lt_succ rest.length

theorem Holds.dequeue {first : UInt8} {rest : List UInt8}
    (h : Holds size buffer (first :: rest))
    : ∃ buffer', cyclicBufferDequeue buffer = some (first, buffer') ∧ Holds size buffer' rest := by
  obtain ⟨some, oldest⟩ := h.first
  have fits := h.fits
  have small := h.small
  rw [List.length_cons] at fits
  have positive : 0 < size := by omega
  have front := h.front positive
  have next : u32 (buffer.front + 1) = buffer.front + 1 := by
    refine u32_of_lt ?_
    simp only [wordSize]
    omega
  rw [dequeue_eq some, oldest]
  refine ⟨_, rfl, h.capacity, small, ?_, ?_, fun _ => ?_, fun _ => ?_, fun i inside => ?_⟩
  · simp only [h.count, List.length_cons, Nat.add_sub_cancel]
  · omega
  · rw [h.capacity]
    exact Nat.mod_lt _ positive
  · have rear := h.rear positive
    rw [List.length_cons] at rear
    simp only [h.capacity, next, rear, Nat.mod_add_mod]
    rw [Nat.add_comm rest.length 1, Nat.add_assoc]
  · have later := h.bytes (i + 1) (Nat.succ_lt_succ inside)
    simp only [h.capacity, next, Nat.mod_add_mod]
    rw [Nat.add_assoc, Nat.add_comm 1 i, later]
    rfl

theorem Holds.clear (h : Holds size buffer contents) : Holds size (cyclicBufferClear buffer) [] :=
  { cyclicBufferInit_holds buffer.data h.small with capacity := h.capacity }

end Holds

-----------------------------------------------------------------------------------------
-- Refinement
-----------------------------------------------------------------------------------------

open BoundedQueue

/-- The four functions, with their return values and what they store through `value`. -/
def cyclicBufferStep : Simulation.Step (Call UInt8) (Answer UInt8) CyclicBuffer
  | .enqueue value, buffer =>
      match cyclicBufferEnqueue buffer value with
      | none => (.failed, buffer)
      | some buffer => (.done, buffer)
  | .dequeue, buffer =>
      match cyclicBufferDequeue buffer with
      | none => (.failed, buffer)
      | some (value, buffer) => (.delivered value, buffer)
  | .read, buffer =>
      match cyclicBufferRead buffer with
      | none => (.failed, buffer)
      | some value => (.delivered value, buffer)
  | .clear, buffer => (.done, cyclicBufferClear buffer)

/-- The index of `data` that a call uses, if it uses one. -/
def cyclicBufferIndex (buffer : CyclicBuffer) : Call UInt8 → Option Nat
  | .enqueue _ =>
      if buffer.count < buffer.size then some (u32 (buffer.rear + 1) % buffer.size) else none
  | .dequeue | .read => if 0 < buffer.count then some buffer.front else none
  | .clear => none

/-- Every call does what the queue does. -/
theorem cyclicBuffer_simulates (size : Nat)
    : Simulation.Simulates (Holds size) cyclicBufferStep (BoundedQueue.step size) := by
  intro call buffer contents h
  cases call with
  | enqueue value =>
      by_cases room : contents.length < size
      · obtain ⟨buffer', stored, holds⟩ := h.enqueue room value
        simp only [cyclicBufferStep, stored, BoundedQueue.step, if_pos room]
        exact ⟨trivial, holds⟩
      · simp only [cyclicBufferStep, h.enqueue_full room value, BoundedQueue.step, if_neg room]
        exact ⟨trivial, h⟩
  | dequeue =>
      cases contents with
      | nil =>
          simp only [cyclicBufferStep, cyclicBufferDequeue, if_neg h.empty, BoundedQueue.step]
          exact ⟨trivial, h⟩
      | cons first rest =>
          obtain ⟨buffer', taken, holds⟩ := h.dequeue
          simp only [cyclicBufferStep, taken, BoundedQueue.step]
          exact ⟨trivial, holds⟩
  | read =>
      cases contents with
      | nil =>
          simp only [cyclicBufferStep, cyclicBufferRead, if_neg h.empty, BoundedQueue.step]
          exact ⟨trivial, h⟩
      | cons first rest =>
          obtain ⟨some, oldest⟩ := h.first
          simp only [cyclicBufferStep, cyclicBufferRead, if_pos some, oldest, BoundedQueue.step]
          exact ⟨trivial, h⟩
  | clear => exact ⟨rfl, h.clear⟩

/-- An index that a call uses lies in the data. -/
theorem Holds.index_lt {size : Nat} {buffer : CyclicBuffer} {contents : List UInt8}
    (h : Holds size buffer contents) {call : Call UInt8} {index : Nat}
    (uses : cyclicBufferIndex buffer call = some index)
    : index < size := by
  have fits := h.fits
  cases call with
  | enqueue value =>
      rw [cyclicBufferIndex, h.capacity] at uses
      obtain ⟨room, same⟩ := Option.ite_none_right_eq_some.mp uses
      obtain rfl := Option.some.inj same
      exact Nat.mod_lt _ (Nat.zero_lt_of_lt room)
  | dequeue | read =>
      obtain ⟨some, same⟩ := Option.ite_none_right_eq_some.mp uses
      obtain rfl := Option.some.inj same
      rw [h.count] at some
      exact h.front (by omega)
  | clear => contradiction

/-- After `cyclic_buffer_init`, any calls answer as a queue of that capacity does, and the next
one stays within the data.
-/
theorem cyclicBuffer_refines {size : Nat} (small : size < 2147483648) (block : Nat → UInt8)
    (calls : List (Call UInt8))
    : (Simulation.run cyclicBufferStep calls (cyclicBufferInit block size)).1
        = (Simulation.run (BoundedQueue.step size) calls []).1
      ∧ Holds size (Simulation.run cyclicBufferStep calls (cyclicBufferInit block size)).2
        (Simulation.run (BoundedQueue.step size) calls []).2
      ∧ ∀ call index, cyclicBufferIndex
          (Simulation.run cyclicBufferStep calls (cyclicBufferInit block size)).2 call = some index
        → index < size := by
  obtain ⟨answers, holds⟩ :=
    (cyclicBuffer_simulates size).run calls (cyclicBufferInit_holds block small)
  exact ⟨answers, holds, fun call index uses => holds.index_lt uses⟩

/-- Two bytes fit into a buffer of two; the third is refused. -/
theorem cyclicBuffer_refines_two
    : (Simulation.run cyclicBufferStep [.enqueue 7, .enqueue 8, .enqueue 9, .dequeue]
        (cyclicBufferInit (fun _ => 0) 2)).1 = [.done, .done, .failed, .delivered 7] :=
  (cyclicBuffer_refines (by decide : 2 < 2147483648) (fun _ => 0)
    [.enqueue 7, .enqueue 8, .enqueue 9, .dequeue]).1

end DeadKernel
