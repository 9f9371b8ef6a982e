import Mathlib.Data.List.Perm.Basic
import Mathlib.Logic.Relation

/-! A fixed number of permits and who holds them.
A permit is either free or held, so an allocation of permits that is built step by step can
neither lose one nor invent one.
-/

namespace Permits

variable {α : Type} {units : Nat}

/-- Who holds the permits; a holder of several is listed several times. -/
structure Ledger (α : Type) (units : Nat) where
  free : Nat
  holders : List α
  balance : free + holders.length = units

namespace Ledger

/-- All permits free. -/
def full (units : Nat) : Ledger α units := ⟨units, [], rfl⟩

/-- Hand a free permit to `who`. -/
def grant (ledger : Ledger α units) (who : α) (available : 0 < ledger.free)
    : Ledger α units where
  free := ledger.free - 1
  holders := who :: ledger.holders
  balance := by
    have balance := ledger.balance
    simp only [List.length_cons]
    omega

/-- Take a permit back from `who`. -/
def give [DecidableEq α] (ledger : Ledger α units) (who : α) (holds : who ∈ ledger.holders)
    : Ledger α units where
  free := ledger.free + 1
  holders := ledger.holders.erase who
  balance := by
    have balance := ledger.balance
    have positive := List.length_pos_of_mem holds
    rw [List.length_erase_of_mem holds]
    omega

/-- There are never more free permits than permits. -/
theorem free_le (ledger : Ledger α units) : ledger.free ≤ units := by
  have balance := ledger.balance
  omega

/-- While a permit is held, not all are free. -/
theorem free_lt_of_held (ledger : Ledger α units) {who : α} (holds : who ∈ ledger.holders)
    : ledger.free < units := by
  have balance := ledger.balance
  have positive := List.length_pos_of_mem holds
  omega

/-- One permit has one holder at most. -/
theorem exclusive (ledger : Ledger α 1) {who other : α} (holds : who ∈ ledger.holders)
    (holds' : other ∈ ledger.holders)
    : who = other := by
  have balance := ledger.balance
  have single : ledger.holders.length ≤ 1 := by omega
  match holders : ledger.holders, single with
  | [], _ => rw [holders] at holds; contradiction
  | [only], _ =>
      rw [holders] at holds holds'
      rw [List.mem_singleton.mp holds, List.mem_singleton.mp holds']

end Ledger

end Permits
