import Mathlib.Data.Multiset.Fold
import Spearhed.Library.Lockstep

/-!
# Values combined from others

A reduction brackets and orders its operations as it likes.  `Combination op s a` says that `a` comes
from the values in `s`, each used once.

For an associative and commutative operation this determines `a` (`Combination.eq`).  A tree
reduction combines the entries of its workers (`Combination.treeReduce`).
-/

namespace Spearhed
namespace Library

variable {M : Type*} {op : M → M → M}

/-- A value obtained by combining all values of a multiset, each of them once. -/
inductive Combination (op : M → M → M) : Multiset M → M → Prop
  | single (a : M) : Combination op {a} a
  | combine {s t : Multiset M} {a b : M} (hs : Combination op s a) (ht : Combination op t b) :
      Combination op (s + t) (op a b)

/-- Combining with the values of a list, one after another. -/
theorem Combination.foldl {s : Multiset M} {a : M} (h : Combination op s a) {ι : Type*} {g : ι → Multiset M}
    {v : ι → M} (l : List ι) (hl : ∀ i ∈ l, Combination op (g i) (v i)) :
    Combination op (s + (l.map g).sum) ((l.map v).foldl op a) := by
  induction l generalizing s a with
  | nil => simpa using h
  | cons i l ih =>
    obtain ⟨hi, hrest⟩ := List.forall_mem_cons.mp hl
    rw [List.map_cons, List.map_cons, List.sum_cons, List.foldl_cons, ← add_assoc]
    exact ih (h.combine hi) hrest

section Fold

variable [Std.Associative op] [Std.Commutative op]

/-- A combination is a fold that starts from one of the values. -/
theorem Combination.exists_fold {s : Multiset M} {a : M} (h : Combination op s a) :
    ∃ c t, s = c ::ₘ t ∧ a = t.fold op c := by
  induction h with
  | single a => exact ⟨a, 0, rfl, (Multiset.fold_zero op a).symm⟩
  | combine _ _ ihs iht =>
    obtain ⟨c, t, rfl, rfl⟩ := ihs
    obtain ⟨c', t', rfl, rfl⟩ := iht
    refine ⟨c, t + c' ::ₘ t', Multiset.cons_add c t _, ?_⟩
    rw [Multiset.add_cons, Multiset.fold_cons'_right, Multiset.fold_add]

/-- The value that the fold starts from does not matter. -/
theorem fold_eq_of_cons_eq {c c' : M} {t t' : Multiset M} (h : c ::ₘ t = c' ::ₘ t') :
    t.fold op c = t'.fold op c' := by
  rcases Multiset.cons_eq_cons.mp h with ⟨rfl, rfl⟩ | ⟨-, u, rfl, rfl⟩
  · rfl
  · rw [Multiset.fold_cons'_left, Multiset.fold_cons'_right]

/-- **The result does not depend on brackets and order.** -/
theorem Combination.eq {s : Multiset M} {a b : M} (ha : Combination op s a) (hb : Combination op s b) :
    a = b := by
  obtain ⟨c, t, rfl, rfl⟩ := ha.exists_fold
  obtain ⟨c', t', hcons, rfl⟩ := hb.exists_fold
  exact fold_eq_of_cons_eq hcons

end Fold

/-! ## Tree reductions -/

theorem Combination.reduceRound {w s : ℕ} (hs : 2 * s ≤ w) {g : ℕ → Multiset M} {v : ℕ → M}
    (h : ∀ t < w, Combination op (g t) (v t)) :
    ∀ t < w, Combination op (Library.reduceRound (· + ·) g s t) (Library.reduceRound op v s t) := by
  intro t ht
  unfold Library.reduceRound
  split
  · exact (h t ht).combine (h (t + s) (by omega))
  · exact h t ht

theorem Combination.foldl_halvings {w : ℕ} (fuel : ℕ) {s : ℕ} (hs : 2 * s ≤ w) {g : ℕ → Multiset M}
    {v : ℕ → M} (h : ∀ t < w, Combination op (g t) (v t)) :
    ∀ t < w, Combination op ((halvings fuel s).foldl (Library.reduceRound (· + ·)) g t)
      ((halvings fuel s).foldl (Library.reduceRound op) v t) := by
  induction fuel generalizing s g v with
  | zero => exact h
  | succ fuel ih =>
    rw [halvings]
    split
    · exact h
    · exact ih (by omega) (Combination.reduceRound hs h)

/-- **A tree reduction uses every entry once.** -/
theorem Combination.treeReduce {k : ℕ} {g : ℕ → Multiset M} {v : ℕ → M}
    (h : ∀ t < 2 ^ k, Combination op (g t) (v t)) :
    Combination op (∑ t ∈ Finset.range (2 ^ k), g t) (Library.treeReduce op (2 ^ k) v 0) := by
  rw [← treeReduce_zero k g]
  exact Combination.foldl_halvings (2 ^ k) (by omega) h 0 (by positivity)

/-! ## Sums over strided loops -/

section Strided

variable {N : Type*} [AddCommMonoid N]

/-- The workers of a block share out a sum. -/
theorem sum_strided {workers : ℕ} (hw : 0 < workers) (bound : ℕ) (g : ℕ → N) :
    ∑ w ∈ Finset.range workers, ((strided w workers bound).map g).sum = ∑ i ∈ Finset.range bound, g i := by
  have hlist : ∀ (n : ℕ) (f : ℕ → N), ∑ i ∈ Finset.range n, f i = ((List.range n).map f).sum := fun n f => by
    rw [← List.sum_toFinset _ List.nodup_range, List.toFinset_range]
  rw [hlist, hlist, ← ((flatMap_strided_perm hw bound).map g).sum_eq, List.map_flatMap,
    List.flatMap_def, List.sum_flatten, List.map_map]
  rfl

/-- A sum over blocks and their lanes. -/
theorem sum_range_mul (m k : ℕ) (f : ℕ → N) :
    ∑ b ∈ Finset.range m, ∑ i ∈ Finset.range k, f (b * k + i) = ∑ j ∈ Finset.range (m * k), f j := by
  induction m with
  | zero => simp
  | succ m ih => rw [Finset.sum_range_succ, ih, Nat.succ_mul, Finset.sum_range_add]

end Strided

/-! ## Workers with a place of their own -/

section Overlay

variable {γ : Type*}

/-- An array in which some places have been overwritten. -/
def overlay (s w : ℕ → γ) (l : List ℕ) : ℕ → γ := fun j => if j ∈ l then w j else s j

theorem overlay_of_mem {s w : ℕ → γ} {l : List ℕ} {j : ℕ} (h : j ∈ l) : overlay s w l j = w j := if_pos h

theorem overlay_of_notMem {s w : ℕ → γ} {l : List ℕ} {j : ℕ} (h : j ∉ l) : overlay s w l j = s j := if_neg h

theorem overlay_concat (s w : ℕ → γ) (l : List ℕ) (t : ℕ) :
    overlay s w (l ++ [t]) = Function.update (overlay s w l) t (w t) := by
  funext j
  rcases eq_or_ne j t with rfl | hne
  · rw [Function.update_self, overlay_of_mem (by simp)]
  · rw [Function.update_of_ne hne]
    simp [overlay, hne]

/-- **Workers that write a place of their own may act in any order**, as long as a worker is not misled
by what others have written before it. -/
theorem foldlM_overlay {body : ℕ → (ℕ → γ) → Option (ℕ → γ)} {s w : ℕ → γ} {order : List ℕ}
    (hnodup : order.Nodup)
    (hbody : ∀ t ∈ order, ∀ l, t ∉ l → l ⊆ order →
      body t (overlay s w l) = some (Function.update (overlay s w l) t (w t))) :
    order.foldlM (fun s t => body t s) s = some (overlay s w order) := by
  -- some workers are done, and the others follow
  have hrest : ∀ todo finished : List ℕ, finished ++ todo = order →
      todo.foldlM (fun s t => body t s) (overlay s w finished) = some (overlay s w order) := by
    intro todo
    induction todo with
    | nil =>
      intro finished h
      rw [List.append_nil] at h
      rw [h]
      rfl
    | cons t todo ih =>
      intro finished h
      have hfresh : t ∉ finished := fun hmem => by
        rw [← h] at hnodup
        exact (List.nodup_append.mp hnodup).2.2 t hmem t List.mem_cons_self rfl
      have hmem : t ∈ order := h ▸ List.mem_append_right _ List.mem_cons_self
      rw [List.foldlM_cons, hbody t hmem finished hfresh (h ▸ List.subset_append_left _ _)]
      show todo.foldlM (fun s t => body t s) (Function.update (overlay s w finished) t (w t)) = _
      rw [← overlay_concat]
      exact ih (finished ++ [t]) (by rw [List.append_assoc, List.singleton_append, h])
  have hnil : overlay s w [] = s := funext fun j => overlay_of_notMem List.not_mem_nil
  simpa only [hnil] using hrest order [] rfl

end Overlay

end Library
end Spearhed
