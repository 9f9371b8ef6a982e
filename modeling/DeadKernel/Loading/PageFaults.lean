import DeadKernel.Loading.MirroredRange
import DeadKernel.Memory.FrameCalls

/-! Page faults. The kernel in its own directory gets what it lacks: the page of the fault and the
one behind it, each at the frame of its own number, and so address 0 as well. Every other fault is
the last one.
-/

namespace DeadKernel

open Words

section

variable {kmalloc : Kmalloc} {kfree : Kfree} {pool : BlockPool kmalloc kfree}
variable {live : Nat → Prop} {held : Blocks} {st st' : Kernel}
variable {faultingAddress errCode cr3 cs : Nat}

end

end DeadKernel
