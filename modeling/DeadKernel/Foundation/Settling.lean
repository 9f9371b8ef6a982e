/-! Computations that are bounded by fuel and settle: with enough of it the result is the same for
any amount. Settled computations are put together without a look at the amounts.
-/

namespace Settling

variable {α β : Type}

/-- With enough fuel, the result is `a`. -/
def Settles (run : Nat → Option α) (a : α) : Prop :=
  ∃ enough, ∀ fuel, enough ≤ fuel → run fuel = some a

section

variable {run run' : Nat → Option α} {next : Nat → α → Option β} {a : α} {b : β}

/-- A result that takes no fuel. -/
theorem Settles.pure (a : α) : Settles (fun _ => some a) a :=
  ⟨0, fun _ _ => rfl⟩

theorem Settles.of_le (enough : Nat) (h : ∀ fuel, enough ≤ fuel → run fuel = some a)
    : Settles run a :=
  ⟨enough, h⟩

/-- Only what happens with much fuel matters. -/
theorem Settles.congr (h : Settles run a) (least : Nat)
    (same : ∀ fuel, least ≤ fuel → run' fuel = run fuel)
    : Settles run' a := by
  obtain ⟨enough, settled⟩ := h
  exact ⟨enough + least, fun fuel more =>
    (same fuel (by omega)).trans (settled fuel (by omega))⟩

theorem Settles.bind (h : Settles run a) (h' : Settles (fun fuel => next fuel a) b)
    : Settles (fun fuel => (run fuel).bind (next fuel)) b := by
  obtain ⟨enough, settled⟩ := h
  obtain ⟨enough', settled'⟩ := h'
  refine ⟨enough + enough', fun fuel more => ?_⟩
  have last : next fuel a = some b := settled' fuel (by omega)
  simp only [settled fuel (by omega), Option.bind_some, last]

/-- The second part of a computation whose first part has settled. -/
theorem Settles.of_bind (h : Settles run a)
    (h' : Settles (fun fuel => (run fuel).bind (next fuel)) b)
    : Settles (fun fuel => next fuel a) b := by
  obtain ⟨enough, settled⟩ := h
  obtain ⟨enough', settled'⟩ := h'
  refine ⟨enough + enough', fun fuel more => ?_⟩
  have both : (run fuel).bind (next fuel) = some b := settled' fuel (by omega)
  rwa [settled fuel (by omega), Option.bind_some] at both

theorem Settles.map (h : Settles run a) (f : α → β)
    : Settles (fun fuel => (run fuel).map f) (f a) := by
  obtain ⟨enough, settled⟩ := h
  exact ⟨enough, fun fuel more => by simp only [settled fuel more, Option.map_some]⟩

/-- A computation that takes one unit of fuel for itself. -/
theorem Settles.shift (h : Settles (fun fuel => run (fuel + 1)) a) : Settles run a := by
  obtain ⟨enough, settled⟩ := h
  refine ⟨enough + 1, fun fuel more => ?_⟩
  obtain ⟨fuel, rfl⟩ : ∃ less, fuel = less + 1 := ⟨fuel - 1, by omega⟩
  exact settled fuel (by omega)

theorem Settles.succ (h : Settles run a) (least : Nat)
    (same : ∀ fuel, least ≤ fuel → run' (fuel + 1) = run fuel)
    : Settles run' a :=
  .shift (h.congr least same)

theorem Settles.unique {a' : α} (h : Settles run a) (h' : Settles run a') : a = a' := by
  obtain ⟨enough, settled⟩ := h
  obtain ⟨enough', settled'⟩ := h'
  have both := (settled (enough + enough') (by omega)).symm.trans
    (settled' (enough + enough') (by omega))
  exact Option.some.inj both

end

end Settling
