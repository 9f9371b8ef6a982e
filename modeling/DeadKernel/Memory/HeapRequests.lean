import DeadKernel.Memory.HeapAllocating

/-! The chunk that a request gets. `pad_request` adds its padding in 32 bits, so that a request of
the last eleven sizes is taken for one of 0 or 8 bytes; no limit is checked in front of it.
-/

namespace DeadKernel

open Words

/-- The chunk of `p` has room for the request and its header, and for a list node. -/
def Honoured (size p : Nat) (st : Kernel) : Prop :=
  size + 4 ≤ chunksize st.mem (mem2Chunk p) ∧ minChunkSize ≤ chunksize st.mem (mem2Chunk p)

theorem oneMegabyte_range : HeapRange 4096 0x90000000 0x90100000 0xCFFFF000 := by
  constructor
  all_goals decide

end DeadKernel
