import Mathlib.Data.Nat.Basic
import Mathlib.Logic.Relation

/-!
# Locks taken in a fixed order

A thread that waits for a lock waits for its owner.  If every waiting thread holds only locks that
come before the one it waits for, the locks waited for grow along every chain of waiting threads.
Hence no chain closes into a cycle (`Ordered.not_circular`), and where the locks are numbered below
a bound, every chain ends at a thread that is not blocked (`Ordered.exists_unblocked`).
-/

namespace Spearhed
namespace Library

/-- Threads, the lock each of them waits for, and the thread that owns a lock. -/
structure LockState (Thread : Type*) where
  waits : Thread → Option ℕ
  owner : ℕ → Option Thread

namespace LockState

variable {Thread : Type*} (s : LockState Thread)

/-- `t` waits for a lock that `u` owns. -/
def WaitsFor (t u : Thread) : Prop :=
  ∃ k, s.waits t = some k ∧ s.owner k = some u

/-- Waiting threads hold only smaller locks. -/
def Ordered : Prop :=
  ∀ t k, s.waits t = some k → ∀ j, s.owner j = some t → j < k

/-- The thread waits for nothing, or for a free lock. -/
def Unblocked (t : Thread) : Prop :=
  ∀ k, s.waits t = some k → s.owner k = none

variable {s}

/-- Locks grow along a chain. -/
theorem Ordered.lt_of_transGen (h : s.Ordered) {t u : Thread}
    (htu : Relation.TransGen s.WaitsFor t u) {l : ℕ} (hl : s.waits u = some l) :
    ∃ k, s.waits t = some k ∧ k < l := by
  induction htu generalizing l with
  | single htu =>
    obtain ⟨k, hk, howner⟩ := htu
    exact ⟨k, hk, h _ l hl k howner⟩
  | tail _ huv ih =>
    obtain ⟨m, hm, howner⟩ := huv
    obtain ⟨k, hk, hkm⟩ := ih hm
    exact ⟨k, hk, Nat.lt_trans hkm (h _ l hl m howner)⟩

/-- **No circular wait.** -/
theorem Ordered.not_circular (h : s.Ordered) (t : Thread) :
    ¬ Relation.TransGen s.WaitsFor t t := by
  intro hcycle
  obtain ⟨u, ⟨k, hk, -⟩, -⟩ := Relation.TransGen.head'_iff.mp hcycle
  obtain ⟨k', hk', hlt⟩ := h.lt_of_transGen hcycle hk
  rw [hk, Option.some.injEq] at hk'
  exact Nat.ne_of_lt hlt hk'.symm

/-- **Every chain of waiting threads ends.** -/
theorem Ordered.exists_unblocked (h : s.Ordered) {n : ℕ}
    (hbound : ∀ t k, s.waits t = some k → k < n) (t : Thread) :
    ∃ u, Relation.ReflTransGen s.WaitsFor t u ∧ s.Unblocked u := by
  -- the distance of the lock waited for from the bound decreases along the chain
  have hwait : ∀ d t k, s.waits t = some k → n - k = d →
      ∃ u, Relation.ReflTransGen s.WaitsFor t u ∧ s.Unblocked u := by
    intro d
    induction d using Nat.strong_induction_on with
    | _ d ih =>
      intro t k hk hd
      cases howner : s.owner k with
      | none =>
        refine ⟨t, Relation.ReflTransGen.refl, fun l hl => ?_⟩
        rw [hk, Option.some.injEq] at hl
        rwa [← hl]
      | some u =>
        have htu : s.WaitsFor t u := ⟨k, hk, howner⟩
        cases hu : s.waits u with
        | none =>
          refine ⟨u, Relation.ReflTransGen.single htu, fun l hl => ?_⟩
          rw [hu] at hl
          cases hl
        | some l =>
          have hkl : k < l := h u l hu k howner
          have hkn : k < n := hbound t k hk
          obtain ⟨v, huv, hv⟩ := ih (n - l) (by omega) u l hu rfl
          exact ⟨v, Relation.ReflTransGen.head htu huv, hv⟩
  cases ht : s.waits t with
  | none =>
    refine ⟨t, Relation.ReflTransGen.refl, fun k hk => ?_⟩
    rw [ht] at hk
    cases hk
  | some k => exact hwait (n - k) t k ht rfl

end LockState

end Library
end Spearhed
