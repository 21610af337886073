import Mathlib.Data.List.Nodup
import Mathlib.Logic.Function.Basic

/-!
# Leasing resources

Holders lease lists of resources, hand them on to other holders and give them back.  `Leases` is the
book of such a pool: who holds what, which resources are marked as leased, and how often each one
was granted and returned.  If resources are granted only while they are not marked, the book stays
`Exclusive`: no resource has two holders, the marks are right, and every grant is matched by one
return or by the present holder.
-/

namespace Spearhed
namespace Library

/-- The book of a pool. -/
structure Leases (H R : Type*) where
  holds : H → List R
  leased : R → Bool
  granted : R → ℕ
  returned : R → ℕ

namespace Leases

variable {H R : Type*} [DecidableEq H] [DecidableEq R]

/-- `h` leases `rs`. -/
def grant (s : Leases H R) (h : H) (rs : List R) : Leases H R where
  holds := Function.update s.holds h rs
  leased := fun r => s.leased r || decide (r ∈ rs)
  granted := fun r => s.granted r + rs.count r
  returned := s.returned

/-- `dst` takes over what `src` holds. -/
def transfer (s : Leases H R) (src dst : H) : Leases H R :=
  { s with holds := Function.update (Function.update s.holds dst (s.holds src)) src [] }

/-- `h` returns what it holds. -/
def release (s : Leases H R) (h : H) : Leases H R where
  holds := Function.update s.holds h []
  leased := fun r => s.leased r && !decide (r ∈ s.holds h)
  granted := s.granted
  returned := fun r => s.returned r + (s.holds h).count r

/-- No resource has two holders, and the marks and counters agree with what is held. -/
structure Exclusive (s : Leases H R) : Prop where
  nodup : ∀ h, (s.holds h).Nodup
  unique : ∀ h h' r, r ∈ s.holds h → r ∈ s.holds h' → h = h'
  leased_iff : ∀ r, s.leased r = true ↔ ∃ h, r ∈ s.holds h
  balance : ∀ r, s.granted r = s.returned r + if s.leased r then 1 else 0

namespace Exclusive

variable {s : Leases H R}

omit [DecidableEq H] [DecidableEq R] in
/-- An unmarked resource has no holder. -/
theorem not_mem (h : s.Exclusive) {r : R} (hr : s.leased r = false) (k : H) : r ∉ s.holds k := by
  intro hmem
  rw [(h.leased_iff r).mpr ⟨k, hmem⟩] at hr
  cases hr

theorem grant (h : s.Exclusive) {k : H} {rs : List R} (hk : s.holds k = []) (hnodup : rs.Nodup)
    (hfree : ∀ r ∈ rs, s.leased r = false) : (s.grant k rs).Exclusive := by
  have hself : (s.grant k rs).holds k = rs := Function.update_self _ _ _
  have hother : ∀ l, l ≠ k → (s.grant k rs).holds l = s.holds l :=
    fun l hl => Function.update_of_ne hl _ _
  constructor
  · intro l
    by_cases hl : l = k
    · rw [hl, hself]
      exact hnodup
    · rw [hother l hl]
      exact h.nodup l
  · intro l l' r hr hr'
    by_cases hl : l = k <;> by_cases hl' : l' = k
    · rw [hl, hl']
    · rw [hl, hself] at hr
      rw [hother l' hl'] at hr'
      exact absurd hr' (h.not_mem (hfree r hr) l')
    · rw [hother l hl] at hr
      rw [hl', hself] at hr'
      exact absurd hr (h.not_mem (hfree r hr') l)
    · rw [hother l hl] at hr
      rw [hother l' hl'] at hr'
      exact h.unique l l' r hr hr'
  · intro r
    show (s.leased r || decide (r ∈ rs)) = true ↔ _
    rw [Bool.or_eq_true, decide_eq_true_iff, h.leased_iff]
    constructor
    · rintro (⟨l, hl⟩ | hr)
      · have hne : l ≠ k := by
          rintro rfl
          rw [hk] at hl
          exact List.not_mem_nil hl
        exact ⟨l, by rwa [hother l hne]⟩
      · exact ⟨k, by rwa [hself]⟩
    · rintro ⟨l, hl⟩
      by_cases hlk : l = k
      · rw [hlk, hself] at hl
        exact Or.inr hl
      · rw [hother l hlk] at hl
        exact Or.inl ⟨l, hl⟩
  · intro r
    show s.granted r + rs.count r = s.returned r + if (s.leased r || decide (r ∈ rs)) then 1 else 0
    rw [h.balance r]
    by_cases hr : r ∈ rs
    · rw [hfree r hr, List.count_eq_one_of_mem hnodup hr]
      simp [hr]
    · rw [List.count_eq_zero_of_not_mem hr]
      simp [hr]

omit [DecidableEq R] in
theorem transfer (h : s.Exclusive) {src dst : H} (hdst : s.holds dst = []) (hne : src ≠ dst) :
    (s.transfer src dst).Exclusive := by
  have hsrc : (s.transfer src dst).holds src = [] := Function.update_self _ _ _
  have hdst' : (s.transfer src dst).holds dst = s.holds src := by
    show Function.update (Function.update s.holds dst (s.holds src)) src [] dst = _
    rw [Function.update_of_ne hne.symm, Function.update_self]
  have hother : ∀ l, l ≠ src → l ≠ dst → (s.transfer src dst).holds l = s.holds l := by
    intro l hls hld
    show Function.update (Function.update s.holds dst (s.holds src)) src [] l = _
    rw [Function.update_of_ne hls, Function.update_of_ne hld]
  -- the old holder of what is held now
  have hfrom : ∀ l, ∃ k, (s.transfer src dst).holds l = [] ∨
      (s.transfer src dst).holds l = s.holds k ∧ (l = dst ∧ k = src ∨ l ≠ src ∧ l ≠ dst ∧ k = l) := by
    intro l
    by_cases hls : l = src
    · exact ⟨src, Or.inl (hls ▸ hsrc)⟩
    · by_cases hld : l = dst
      · exact ⟨src, Or.inr ⟨hld ▸ hdst', Or.inl ⟨hld, rfl⟩⟩⟩
      · exact ⟨l, Or.inr ⟨hother l hls hld, Or.inr ⟨hls, hld, rfl⟩⟩⟩
  constructor
  · intro l
    obtain ⟨k, hk | ⟨hk, -⟩⟩ := hfrom l
    · rw [hk]
      exact List.nodup_nil
    · rw [hk]
      exact h.nodup k
  · intro l l' r hr hr'
    obtain ⟨k, hk | ⟨hk, hkl⟩⟩ := hfrom l
    · rw [hk] at hr
      exact absurd hr List.not_mem_nil
    · obtain ⟨k', hk' | ⟨hk', hkl'⟩⟩ := hfrom l'
      · rw [hk'] at hr'
        exact absurd hr' List.not_mem_nil
      · rw [hk] at hr
        rw [hk'] at hr'
        have hkk := h.unique k k' r hr hr'
        rcases hkl with ⟨rfl, rfl⟩ | ⟨hls, hld, rfl⟩ <;>
          rcases hkl' with ⟨rfl, rfl⟩ | ⟨hls', hld', rfl⟩
        · rfl
        · exact absurd hkk.symm hls'
        · exact absurd hkk hls
        · exact hkk
  · intro r
    refine (h.leased_iff r).trans ⟨fun ⟨l, hl⟩ => ?_, fun ⟨l, hl⟩ => ?_⟩
    · by_cases hls : l = src
      · exact ⟨dst, by rwa [hdst', ← hls]⟩
      · have hld : l ≠ dst := by
          rintro rfl
          rw [hdst] at hl
          exact List.not_mem_nil hl
        exact ⟨l, by rwa [hother l hls hld]⟩
    · obtain ⟨k, hk | ⟨hk, -⟩⟩ := hfrom l
      · rw [hk] at hl
        exact absurd hl List.not_mem_nil
      · exact ⟨k, hk ▸ hl⟩
  · exact h.balance

theorem release (h : s.Exclusive) (k : H) : (s.release k).Exclusive := by
  have hself : (s.release k).holds k = [] := Function.update_self _ _ _
  have hother : ∀ l, l ≠ k → (s.release k).holds l = s.holds l :=
    fun l hl => Function.update_of_ne hl _ _
  have hsub : ∀ l r, r ∈ (s.release k).holds l → l ≠ k ∧ r ∈ s.holds l := by
    intro l r hr
    by_cases hl : l = k
    · rw [hl, hself] at hr
      exact absurd hr List.not_mem_nil
    · exact ⟨hl, hother l hl ▸ hr⟩
  constructor
  · intro l
    by_cases hl : l = k
    · rw [hl, hself]
      exact List.nodup_nil
    · rw [hother l hl]
      exact h.nodup l
  · exact fun l l' r hr hr' => h.unique l l' r (hsub l r hr).2 (hsub l' r hr').2
  · intro r
    show (s.leased r && !decide (r ∈ s.holds k)) = true ↔ _
    rw [Bool.and_eq_true, Bool.not_eq_true', decide_eq_false_iff_not, h.leased_iff]
    constructor
    · rintro ⟨⟨l, hl⟩, hk⟩
      have hne : l ≠ k := fun hlk => hk (hlk ▸ hl)
      exact ⟨l, by rwa [hother l hne]⟩
    · rintro ⟨l, hl⟩
      obtain ⟨hne, hl⟩ := hsub l r hl
      exact ⟨⟨l, hl⟩, fun hk => hne (h.unique l k r hl hk)⟩
  · intro r
    show s.granted r = s.returned r + (s.holds k).count r +
      if (s.leased r && !decide (r ∈ s.holds k)) then 1 else 0
    rw [h.balance r]
    by_cases hr : r ∈ s.holds k
    · rw [(h.leased_iff r).mpr ⟨k, hr⟩, List.count_eq_one_of_mem (h.nodup k) hr]
      simp [hr]
    · rw [List.count_eq_zero_of_not_mem hr]
      simp [hr]

end Exclusive

end Leases

end Library
end Spearhed
