import Mathlib.Algebra.NeZero
import Mathlib.Data.Nat.Cast.Defs

/-!
# Literals

Numbers that definitions are written with, as instances that have names.  Without them, the term of a
numeral holds a proof without a name, and it depends on what was declared before which one that is.
-/

namespace Spearhed
namespace Library
namespace Literals

scoped instance (priority := high) neZero_succ (n : ℕ) : @NeZero ℕ Zero.ofOfNat0 (n + 1) :=
  ⟨n.succ_ne_zero⟩

scoped instance (priority := high) neZero_add_two (n : ℕ) : @NeZero ℕ Zero.ofOfNat0 (n + 2) :=
  ⟨(n + 1).succ_ne_zero⟩

scoped instance (priority := high) neZero_one : @NeZero ℕ Zero.ofOfNat0 1 := ⟨Nat.one_ne_zero⟩

scoped instance (priority := high) neZero_two : @NeZero ℕ Zero.ofOfNat0 2 := ⟨Nat.succ_ne_zero 1⟩

scoped instance (priority := high) neZero_three : @NeZero ℕ Zero.ofOfNat0 3 := ⟨Nat.succ_ne_zero 2⟩

scoped instance atLeastTwo_two : Nat.AtLeastTwo 2 := ⟨Nat.le_refl 2⟩

scoped instance atLeastTwo_three : Nat.AtLeastTwo 3 := ⟨by decide⟩

scoped instance atLeastTwo_four : Nat.AtLeastTwo 4 := ⟨by decide⟩

scoped instance atLeastTwo_five : Nat.AtLeastTwo 5 := ⟨by decide⟩

scoped instance atLeastTwo_six : Nat.AtLeastTwo 6 := ⟨by decide⟩

scoped instance atLeastTwo_fifteen : Nat.AtLeastTwo 15 := ⟨by decide⟩

scoped instance atLeastTwo_thirty : Nat.AtLeastTwo 30 := ⟨by decide⟩

scoped instance atLeastTwo_seventyFive : Nat.AtLeastTwo 75 := ⟨by decide⟩

end Literals
end Library
end Spearhed
