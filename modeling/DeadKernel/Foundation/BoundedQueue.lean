import Mathlib.Data.List.Basic

/-! First-in first-out queues of bounded capacity. -/

namespace BoundedQueue

universe u

variable {Element : Type u}

inductive Call (Element : Type u) where
  | enqueue (element : Element)
  | dequeue
  | read
  | clear

inductive Answer (Element : Type u) where
  | failed
  | done
  | delivered (element : Element)

/-- A queue of at most `capacity` elements, the oldest first. -/
def step (capacity : Nat) : Call Element → List Element → Answer Element × List Element
  | .enqueue element, elements =>
      if elements.length < capacity then (.done, elements ++ [element]) else (.failed, elements)
  | .dequeue, [] => (.failed, [])
  | .dequeue, first :: rest => (.delivered first, rest)
  | .read, [] => (.failed, [])
  | .read, first :: rest => (.delivered first, first :: rest)
  | .clear, _ => (.done, [])

end BoundedQueue
