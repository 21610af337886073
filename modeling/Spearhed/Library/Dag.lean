import Mathlib.Logic.Relation
import Mathlib.Tactic

/-!
# Roots and tails of a numbered dependency relation

A direct dependency relation on the natural numbers, `r a b` for "`a` comes directly before
`b`", that only goes upwards.  Restricted to a bounded set of numbers it is a finite acyclic
graph, so following it backwards ends at a *root* (nothing before it in the set) and following
it forwards ends at a *tail* (nothing after it in the set).

The paths are taken in the relation restricted to the set, since that is what survives when the
set is embedded as one part of a larger graph.
-/

namespace Spearhed
namespace Library

variable {P : ℕ → Prop} {r : ℕ → ℕ → Prop}

/-- The part of `r` inside the set `P`. -/
def Within (P : ℕ → Prop) (r : ℕ → ℕ → Prop) (a b : ℕ) : Prop := P a ∧ P b ∧ r a b

/-- An entry of `P` with nothing of `P` directly before it. -/
def IsRoot (P : ℕ → Prop) (r : ℕ → ℕ → Prop) (a : ℕ) : Prop := P a ∧ ∀ b, P b → ¬ r b a

/-- An entry of `P` with nothing of `P` directly after it. -/
def IsTail (P : ℕ → Prop) (r : ℕ → ℕ → Prop) (a : ℕ) : Prop := P a ∧ ∀ b, P b → ¬ r a b

/-- **Backwards ends at a root.** -/
theorem exists_root_reflTransGen (hr : ∀ a b, r a b → a < b) {b : ℕ} (hb : P b) :
    ∃ a, IsRoot P r a ∧ Relation.ReflTransGen (Within P r) a b := by
  induction b using Nat.strong_induction_on with
  | _ b ih =>
    by_cases hroot : IsRoot P r b
    · exact ⟨b, hroot, Relation.ReflTransGen.refl⟩
    · obtain ⟨c, hc, hcb⟩ : ∃ c, P c ∧ r c b := by
        by_contra hno
        push Not at hno
        exact hroot ⟨hb, hno⟩
      obtain ⟨a, ha, hac⟩ := ih c (hr c b hcb) hc
      exact ⟨a, ha, hac.tail ⟨hc, hb, hcb⟩⟩

/-- **Forwards ends at a tail**, in a set bounded by `n`. -/
theorem exists_tail_reflTransGen (hr : ∀ a b, r a b → a < b) {n : ℕ} (hn : ∀ a, P a → a < n)
    {a : ℕ} (ha : P a) : ∃ b, IsTail P r b ∧ Relation.ReflTransGen (Within P r) a b := by
  induction hm : n - a using Nat.strong_induction_on generalizing a with
  | _ m ih =>
    by_cases htail : IsTail P r a
    · exact ⟨a, htail, Relation.ReflTransGen.refl⟩
    · obtain ⟨c, hc, hac⟩ : ∃ c, P c ∧ r a c := by
        by_contra hno
        push Not at hno
        exact htail ⟨ha, hno⟩
      have hlt := hr a c hac
      have hcn := hn c hc
      obtain ⟨b, hb, hcb⟩ := ih (n - c) (by omega) hc rfl
      exact ⟨b, hb, Relation.ReflTransGen.head ⟨ha, hc, hac⟩ hcb⟩

/-- Restricting a relation only removes paths. -/
theorem reflTransGen_of_within {a b : ℕ} (h : Relation.ReflTransGen (Within P r) a b) :
    Relation.ReflTransGen r a b :=
  Relation.ReflTransGen.mono (fun _ _ hab => hab.2.2) _ _ h

/-- **Tails times roots is everything times everything.**  If every tail of `P` is directly
before every root of `Q`, then every entry of `P` comes before every entry of `Q`. -/
theorem transGen_of_tails_roots {Q : ℕ → Prop} (hr : ∀ a b, r a b → a < b) {n : ℕ}
    (hn : ∀ a, P a → a < n) (hlink : ∀ a b, IsTail P r a → IsRoot Q r b → r a b)
    {a b : ℕ} (ha : P a) (hb : Q b) : Relation.TransGen r a b := by
  obtain ⟨t, ht, hat⟩ := exists_tail_reflTransGen hr hn ha
  obtain ⟨s, hs, hsb⟩ := exists_root_reflTransGen hr hb
  exact Relation.TransGen.trans_right (reflTransGen_of_within hat)
    (Relation.TransGen.trans_left (Relation.TransGen.single (hlink t s ht hs))
      (reflTransGen_of_within hsb))

/-- The transitive closure of a relation contained in a transitive one is contained in it. -/
theorem transGen_le_of_trans {α : Type*} {r s : α → α → Prop} (hrs : ∀ a b, r a b → s a b)
    (hs : ∀ a b c, s a b → s b c → s a c) {a b : α} (h : Relation.TransGen r a b) : s a b := by
  induction h with
  | single h => exact hrs _ _ h
  | tail _ hbc ih => exact hs _ _ _ ih (hrs _ _ hbc)

end Library
end Spearhed
