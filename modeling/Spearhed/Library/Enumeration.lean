import Mathlib.Data.Int.ConditionallyCompleteOrder
import Mathlib.Data.Int.Interval
import Mathlib.Data.Set.Function
import Mathlib.Order.CompletePartialOrder
import Mathlib.Tactic.Linarith
import Mathlib.Tactic.Ring

/-!
# Counting off a set with consecutive numbers

A loop over a linear index visits a set of cells.  `Enumerates f n S` says that it visits every cell
of `S` once and nothing else.  Two such loops may be run after one another (`append`), the cells may
be renamed (`map`), and a box is visited by taking the index apart into remainders and quotients
(`grid`, `grid3`).  A loop per plane makes a loop over all planes (`planes`).
-/

namespace Spearhed
namespace Library

variable {α β : Type*}

/-- The numbers below `n` count off the set. -/
def Enumerates (f : ℤ → α) (n : ℤ) (S : Set α) : Prop := Set.BijOn f (Set.Ico 0 n) S

namespace Enumerates

variable {f g : ℤ → α} {n m : ℤ} {S T : Set α}

theorem congr (hf : Enumerates f n S) (h : ∀ i, 0 ≤ i → i < n → g i = f i) : Enumerates g n S :=
  Set.BijOn.congr hf fun i hi => (h i hi.1 hi.2).symm

/-- The cells are renamed. -/
theorem map (hf : Enumerates f n S) {φ : α → β} {T : Set β} (hφ : Set.BijOn φ S T) :
    Enumerates (fun i => φ (f i)) n T :=
  Set.BijOn.comp hφ hf

/-- **One loop after another**, over disjoint sets. -/
theorem append (hn : 0 ≤ n) (hm : 0 ≤ m) (hf : Enumerates f n S) (hg : Enumerates g m T) (hST : Disjoint S T) :
    Enumerates (fun i => if i < n then f i else g (i - n)) (n + m) (S ∪ T) := by
  refine ⟨fun i hi => ?_, fun i hi j hj hij => ?_, fun c hc => ?_⟩
  · dsimp only
    split
    · next hlt => exact Or.inl (hf.mapsTo ⟨hi.1, hlt⟩)
    · next hge => exact Or.inr (hg.mapsTo ⟨by linarith, by linarith [hi.2]⟩)
  · have hmemf : ∀ k ∈ Set.Ico 0 (n + m), k < n → f k ∈ S := fun k hk hlt => hf.mapsTo ⟨hk.1, hlt⟩
    have hmemg : ∀ k ∈ Set.Ico 0 (n + m), ¬ k < n → g (k - n) ∈ T := fun k hk hge =>
      hg.mapsTo ⟨by linarith, by linarith [hk.2]⟩
    dsimp only at hij
    split at hij
    · next hi' =>
      split at hij
      · next hj' => exact hf.injOn ⟨hi.1, hi'⟩ ⟨hj.1, hj'⟩ hij
      · next hj' => exact absurd (hij ▸ hmemf i hi hi') (Set.disjoint_right.mp hST (hmemg j hj hj'))
    · next hi' =>
      split at hij
      · next hj' => exact absurd (hij ▸ hmemg i hi hi') (Set.disjoint_left.mp hST (hmemf j hj hj'))
      · next hj' =>
        have hi'' : i - n ∈ Set.Ico 0 m := ⟨by linarith, by linarith [hi.2]⟩
        have hj'' : j - n ∈ Set.Ico 0 m := ⟨by linarith, by linarith [hj.2]⟩
        linarith [hg.injOn hi'' hj'' hij]
  · rcases hc with hc | hc
    · obtain ⟨i, hi, rfl⟩ := hf.surjOn hc
      exact ⟨i, ⟨hi.1, by linarith [hi.2]⟩, if_pos hi.2⟩
    · obtain ⟨i, hi, rfl⟩ := hg.surjOn hc
      refine ⟨i + n, ⟨by linarith [hi.1], by linarith [hi.2]⟩, ?_⟩
      have hge : ¬ i + n < n := by linarith [hi.1]
      exact (if_neg hge).trans (by rw [add_sub_cancel_right])

/-- **Remainder and quotient** visit a rectangle row by row. -/
theorem grid {a : ℤ} (ha : 0 ≤ a) (h : ℤ) :
    Enumerates (fun i => (i % a, i / a)) (a * h) (Set.Ico 0 a ×ˢ Set.Ico 0 h) := by
  rcases ha.eq_or_lt with rfl | ha
  · rw [zero_mul, Set.Ico_self, Set.empty_prod, Enumerates, Set.Ico_self]
    exact Set.bijOn_empty _
  · refine ⟨fun i hi => ?_, fun i _ j _ hij => ?_, fun c hc => ?_⟩
    · exact ⟨⟨Int.emod_nonneg i ha.ne', Int.emod_lt_of_pos i ha⟩,
        ⟨Int.ediv_nonneg hi.1 ha.le, Int.ediv_lt_of_lt_mul ha (by rw [mul_comm]; exact hi.2)⟩⟩
    · obtain ⟨hmod, hdiv⟩ := Prod.mk.inj hij
      rw [← Int.emod_add_mul_ediv i a, ← Int.emod_add_mul_ediv j a, hmod, hdiv]
    · obtain ⟨⟨hx0, hxa⟩, hy0, hyh⟩ := hc
      refine ⟨c.1 + a * c.2, ⟨by positivity, ?_⟩, Prod.ext ?_ ?_⟩
      · calc c.1 + a * c.2 < a + a * c.2 := by linarith
          _ = a * (c.2 + 1) := by ring
          _ ≤ a * h := mul_le_mul_of_nonneg_left (by omega) ha.le
      · exact (Int.add_mul_emod_self_left _ _ _).trans (Int.emod_eq_of_lt hx0 hxa)
      · dsimp only
        rw [Int.add_mul_ediv_left _ _ ha.ne', Int.ediv_eq_zero_of_lt hx0 hxa, zero_add]

/-- Remainder, remainder of the quotient, and quotient visit a box. -/
theorem grid3 {a b : ℤ} (ha : 0 ≤ a) (hb : 0 ≤ b) (h : ℤ) :
    Enumerates (fun i => (i % a, i / a % b, i / (a * b))) (a * b * h)
      (Set.Ico 0 a ×ˢ Set.Ico 0 b ×ˢ Set.Ico 0 h) := by
  have hrest : Set.BijOn (Prod.map id fun j => (j % b, j / b))
      (Set.Ico 0 a ×ˢ Set.Ico 0 (b * h)) (Set.Ico 0 a ×ˢ Set.Ico 0 b ×ˢ Set.Ico 0 h) :=
    (Set.bijOn_id _).prodMap (grid hb h)
  have hgrid := (grid ha (b * h)).map hrest
  rw [← mul_assoc] at hgrid
  refine hgrid.congr fun i _ _ => ?_
  rw [Prod.map_apply, id, Int.ediv_ediv_of_nonneg ha]

/-- **One loop per plane**: the pairs of a loop index and a plane visit all planes. -/
theorem planes {ι : Type*} {F : ℤ → ι → α} {I : Set ι} {P : ι → Set α}
    (hF : ∀ s ∈ I, Enumerates (fun i => F i s) n (P s)) (hP : I.PairwiseDisjoint P) :
    Set.BijOn (fun p : ℤ × ι => F p.1 p.2) (Set.Ico 0 n ×ˢ I) (⋃ s ∈ I, P s) := by
  refine ⟨fun p hp => ?_, fun p hp q hq hpq => ?_, fun c hc => ?_⟩
  · exact Set.mem_biUnion hp.2 ((hF p.2 hp.2).mapsTo hp.1)
  · have hmem : F p.1 p.2 ∈ P q.2 := by
      rw [show F p.1 p.2 = F q.1 q.2 from hpq]
      exact (hF q.2 hq.2).mapsTo hq.1
    have hplane : p.2 = q.2 := hP.elim_set hp.2 hq.2 _ ((hF p.2 hp.2).mapsTo hp.1) hmem
    refine Prod.ext ((hF p.2 hp.2).injOn hp.1 hq.1 ?_) hplane
    exact (show F p.1 p.2 = F q.1 q.2 from hpq).trans (by rw [hplane])
  · obtain ⟨s, hs, hc⟩ := Set.mem_iUnion₂.mp hc
    obtain ⟨i, hi, rfl⟩ := (hF s hs).surjOn hc
    exact ⟨(i, s), ⟨hi, hs⟩, rfl⟩

end Enumerates
end Library
end Spearhed
