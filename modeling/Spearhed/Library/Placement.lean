import Mathlib.Data.List.Nodup
import Mathlib.Data.List.Perm.Basic
import Mathlib.Logic.Function.Basic

/-!
# Things that are in one place

Things are handed from one container to another: from a list of waiting callbacks to the call that runs
them, from there to the queue of a thread.  That none is lost and none is duplicated means that at every
moment each thing is in at most one container, once.  `Placed` says which container that is.

* `Placed.move`: some things go from one container to another.
* `Placed.add`: a new thing arrives.
-/

namespace Spearhed
namespace Library

variable {ι ν : Type*}

/-- Each thing is in the container that `place` says, once, and in no other. -/
structure Placed (contents : ι → List ν) (place : ν → Option ι) : Prop where
  nodup : ∀ c, (contents c).Nodup
  mem : ∀ c a, a ∈ contents c ↔ place a = some c

namespace Placed

variable {contents contents' : ι → List ν} {place : ν → Option ι} {c c' : ι} {a : ν}

theorem eq (h : Placed contents place) (hc : a ∈ contents c) (hc' : a ∈ contents c') : c = c' :=
  Option.some.inj (((h.mem c a).mp hc).symm.trans ((h.mem c' a).mp hc'))

/-- **Things are handed over.** -/
theorem move [DecidableEq ν] (h : Placed contents place) (hne : c ≠ c') {l : List ν}
    (hfrom : (contents c).Perm (l ++ contents' c)) (hto : (contents' c').Perm (l ++ contents c'))
    (hother : ∀ d, d ≠ c → d ≠ c' → contents' d = contents d) :
    Placed contents' fun a => if a ∈ l then some c' else place a := by
  have hnodup : (l ++ contents' c).Nodup := hfrom.nodup_iff.mp (h.nodup c)
  obtain ⟨hl, hrest, hdisjoint⟩ := List.nodup_append'.mp hnodup
  have hin : ∀ a ∈ l, place a = some c := fun a ha => (h.mem c a).mp (hfrom.mem_iff.mpr (List.mem_append_left _ ha))
  refine ⟨fun d => ?_, fun d a => ?_⟩
  · rcases eq_or_ne d c with rfl | hdc
    · exact hrest
    · rcases eq_or_ne d c' with rfl | hdc'
      · refine hto.nodup_iff.mpr (List.nodup_append'.mpr ⟨hl, h.nodup d, fun a ha ha' => hne ?_⟩)
        exact Option.some.inj ((hin a ha).symm.trans ((h.mem d a).mp ha'))
      · rw [hother d hdc hdc']
        exact h.nodup d
  · rcases eq_or_ne d c with rfl | hdc
    · by_cases ha : a ∈ l
      · rw [if_pos ha]
        exact iff_of_false (hdisjoint ha) fun heq => hne (Option.some.inj heq).symm
      · rw [if_neg ha, ← h.mem, hfrom.mem_iff, List.mem_append]
        exact (or_iff_right ha).symm
    · rcases eq_or_ne d c' with rfl | hdc'
      · rw [hto.mem_iff, List.mem_append]
        by_cases ha : a ∈ l
        · rw [if_pos ha]
          exact iff_of_true (Or.inl ha) rfl
        · rw [if_neg ha, ← h.mem]
          exact or_iff_right ha
      · rw [hother d hdc hdc', h.mem]
        by_cases ha : a ∈ l
        · rw [if_pos ha, hin a ha]
          exact iff_of_false (fun heq => hdc (Option.some.inj heq).symm) fun heq => hdc' (Option.some.inj heq).symm
        · rw [if_neg ha]

/-- A thing that was nowhere arrives. -/
theorem add [DecidableEq ν] (h : Placed contents place) (ha : place a = none)
    (hto : (contents' c).Perm (a :: contents c)) (hother : ∀ d, d ≠ c → contents' d = contents d) :
    Placed contents' (Function.update place a (some c)) := by
  have hnot : ∀ d, a ∉ contents d := fun d hmem => by
    rw [h.mem, ha] at hmem
    cases hmem
  refine ⟨fun d => ?_, fun d b => ?_⟩
  · rcases eq_or_ne d c with rfl | hdc
    · exact hto.nodup_iff.mpr (List.nodup_cons.mpr ⟨hnot d, h.nodup d⟩)
    · rw [hother d hdc]
      exact h.nodup d
  · rcases eq_or_ne b a with rfl | hba
    · rw [Function.update_self]
      rcases eq_or_ne d c with rfl | hdc
      · exact iff_of_true (hto.mem_iff.mpr List.mem_cons_self) rfl
      · rw [hother d hdc]
        exact iff_of_false (hnot d) fun heq => hdc (Option.some.inj heq).symm
    · rw [Function.update_of_ne hba, ← h.mem]
      rcases eq_or_ne d c with rfl | hdc
      · rw [hto.mem_iff, List.mem_cons]
        exact or_iff_right hba
      · rw [hother d hdc]

end Placed

end Library
end Spearhed
