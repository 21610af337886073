import Mathlib.Data.Set.SymmDiff
import Mathlib.Order.BooleanAlgebra.Basic
import Mathlib.Order.ConditionallyCompleteLattice.Basic

/-!
# Terms over Boolean operations

An identity between terms over `∪`, `∩`, `\`, `∆`, complement and the two constants holds for sets
as soon as it holds for the two truth values: membership of a point in a term is the truth value
of the term at the memberships of its variables (`BooleanTerm.mem_eval`).  A type whose operations
are represented faithfully by sets inherits every such identity (`Represents.eval_eq`).
-/

namespace Spearhed
namespace Library

/-- The operations a term is evaluated with. -/
structure BooleanOps (A : Type*) where
  bot : A
  top : A
  compl : A → A
  sup : A → A → A
  inf : A → A → A
  sdiff : A → A → A
  xor : A → A → A

namespace BooleanOps

/-- The operations on truth values. -/
def truth : BooleanOps Bool :=
  ⟨false, true, not, or, and, fun a b => a && !b, Bool.xor⟩

/-- The operations on sets. -/
def sets (X : Type*) : BooleanOps (Set X) :=
  ⟨∅, Set.univ, fun s => sᶜ, (· ∪ ·), (· ∩ ·), (· \ ·), symmDiff⟩

end BooleanOps

/-- Terms with variables in `ι`. -/
inductive BooleanTerm (ι : Type*)
  | var (i : ι)
  | bot
  | top
  | compl (s : BooleanTerm ι)
  | sup (s t : BooleanTerm ι)
  | inf (s t : BooleanTerm ι)
  | sdiff (s t : BooleanTerm ι)
  | xor (s t : BooleanTerm ι)

namespace BooleanTerm

variable {ι A X : Type*}

/-- The value of a term. -/
def eval (ops : BooleanOps A) (v : ι → A) : BooleanTerm ι → A
  | var i => v i
  | bot => ops.bot
  | top => ops.top
  | compl s => ops.compl (s.eval ops v)
  | sup s t => ops.sup (s.eval ops v) (t.eval ops v)
  | inf s t => ops.inf (s.eval ops v) (t.eval ops v)
  | sdiff s t => ops.sdiff (s.eval ops v) (t.eval ops v)
  | xor s t => ops.xor (s.eval ops v) (t.eval ops v)

open Classical in
/-- Membership in a term is computed on truth values. -/
theorem mem_eval (v : ι → Set X) (t : BooleanTerm ι) (x : X) :
    x ∈ t.eval (BooleanOps.sets X) v ↔
      t.eval BooleanOps.truth (fun i => decide (x ∈ v i)) = true := by
  induction t with
  | var i => exact decide_eq_true_iff.symm
  | bot => exact ⟨fun h => absurd h (Set.notMem_empty x), fun h => by cases h⟩
  | top => exact ⟨fun _ => rfl, fun _ => Set.mem_univ x⟩
  | compl s ih =>
    show x ∉ s.eval _ v ↔ (!s.eval _ _) = true
    rw [ih, Bool.not_eq_true, Bool.not_eq_true']
  | sup s t ihs iht =>
    show x ∈ s.eval _ v ∪ t.eval _ v ↔ (s.eval _ _ || t.eval _ _) = true
    rw [Set.mem_union, ihs, iht, Bool.or_eq_true]
  | inf s t ihs iht =>
    show x ∈ s.eval _ v ∩ t.eval _ v ↔ (s.eval _ _ && t.eval _ _) = true
    rw [Set.mem_inter_iff, ihs, iht, Bool.and_eq_true]
  | sdiff s t ihs iht =>
    show x ∈ s.eval _ v \ t.eval _ v ↔ (s.eval _ _ && !t.eval _ _) = true
    rw [Set.mem_sdiff, ihs, iht, Bool.and_eq_true, Bool.not_eq_true, Bool.not_eq_true']
  | xor s t ihs iht =>
    show x ∈ symmDiff (s.eval _ v) (t.eval _ v) ↔ (Bool.xor (s.eval _ _) (t.eval _ _)) = true
    rw [Set.mem_symmDiff, ihs, iht]
    cases s.eval BooleanOps.truth _ <;> cases t.eval BooleanOps.truth _ <;> simp

end BooleanTerm

namespace BooleanOps

variable {ι A X : Type*}

/-- `denote` is a faithful representation of the operations by sets. -/
structure Represents (ops : BooleanOps A) (denote : A → Set X) : Prop where
  injective : Function.Injective denote
  bot : denote ops.bot = ∅
  top : denote ops.top = Set.univ
  compl : ∀ a, denote (ops.compl a) = (denote a)ᶜ
  sup : ∀ a b, denote (ops.sup a b) = denote a ∪ denote b
  inf : ∀ a b, denote (ops.inf a b) = denote a ∩ denote b
  sdiff : ∀ a b, denote (ops.sdiff a b) = denote a \ denote b
  xor : ∀ a b, denote (ops.xor a b) = symmDiff (denote a) (denote b)

namespace Represents

variable {ops : BooleanOps A} {denote : A → Set X}

theorem denote_eval (h : ops.Represents denote) (v : ι → A) (t : BooleanTerm ι) :
    denote (t.eval ops v) = t.eval (BooleanOps.sets X) fun i => denote (v i) := by
  induction t with
  | var i => rfl
  | bot => exact h.bot
  | top => exact h.top
  | compl s ih => exact (h.compl _).trans (congrArg _ ih)
  | sup s t ihs iht => exact (h.sup _ _).trans (congrArg₂ _ ihs iht)
  | inf s t ihs iht => exact (h.inf _ _).trans (congrArg₂ _ ihs iht)
  | sdiff s t ihs iht => exact (h.sdiff _ _).trans (congrArg₂ _ ihs iht)
  | xor s t ihs iht => exact (h.xor _ _).trans (congrArg₂ _ ihs iht)

/-- **Identities of truth values are identities of the represented operations.** -/
theorem eval_eq (h : ops.Represents denote) {s t : BooleanTerm ι}
    (hst : ∀ v : ι → Bool, s.eval BooleanOps.truth v = t.eval BooleanOps.truth v) (v : ι → A) :
    s.eval ops v = t.eval ops v := by
  refine h.injective (Set.ext fun x => ?_)
  rw [h.denote_eval, h.denote_eval, BooleanTerm.mem_eval, BooleanTerm.mem_eval, hst]

end Represents

end BooleanOps

end Library
end Spearhed
