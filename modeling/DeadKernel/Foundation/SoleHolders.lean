/-! References that hold resources, and marks on the resources that are taken. A resource that a
sole reference holds is held by no other.
-/

namespace SoleHolders

variable {Ref Res : Type}

/-- Whatever a reference in use holds is marked, and a sole reference shares it with none. -/
structure Exclusive (inUse sole : Ref → Prop) (held : Ref → Option Res) (marked : Res → Prop)
    : Prop where
  marked : ∀ ref res, inUse ref → held ref = some res → marked res
  alone : ∀ ref other res, inUse ref → sole ref → held ref = some res → inUse other →
    held other = some res → other = ref

section

variable {inUse inUse' sole sole' : Ref → Prop} {held held' : Ref → Option Res}
variable {marked marked' : Res → Prop}

/-- A step is safe if each reference still holds what it held before or now holds a resource that
was not marked, if such a resource goes to one reference only, and if the marks follow.
-/
theorem Exclusive.step (h : Exclusive inUse sole held marked)
    (marks : ∀ ref res, inUse' ref → held' ref = some res → marked' res)
    (kept : ∀ ref res, inUse' ref → held' ref = some res → marked res →
      inUse ref ∧ held ref = some res ∧ (sole' ref → sole ref))
    (fresh : ∀ ref other res, inUse' ref → sole' ref → held' ref = some res → inUse' other →
      held' other = some res → ¬ marked res → other = ref)
    : Exclusive inUse' sole' held' marked' where
  marked := marks
  alone ref other res used isSole holds used' holds' := by
    by_cases known : marked res
    · obtain ⟨before, same, more⟩ := kept ref res used holds known
      obtain ⟨before', same', -⟩ := kept other res used' holds' known
      exact h.alone ref other res before (more isSole) same before' same'
    · exact fresh ref other res used isSole holds used' holds' known

end

end SoleHolders
