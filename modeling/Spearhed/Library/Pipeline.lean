import Mathlib.Data.List.Infix
import Spearhed.Library.StepSystem

/-!
# Systems made of systems

* `Ends.of_steps`: a run that ends well from every successor ends well.
* `Ends.phase`: a system that goes through the steps of another one, and then goes on.
* `pipeline`: a producer, and a consumer that reads what the producer has put out so far.  The consumer may
  read while the producer still runs, but whatever it does on a part of the output it could also do on all of
  it.  So the two end as they would one after the other (`pipeline_ends`).
-/

namespace Spearhed
namespace Library
namespace StepSystem

variable {σ τ M : Type*} {S : StepSystem σ} {T : StepSystem τ}

/-! ## One after the other -/

theorem Ends.step {s t : σ} {Q : σ → Prop} (h : S.Ends s Q) (hst : S.step s t) : S.Ends t Q :=
  ⟨h.1.inv hst, fun u htu hu => h.2 u (Relation.ReflTransGen.head hst htu) hu⟩

theorem Ends.of_steps {s : σ} {Q : σ → Prop} (hstep : ∀ t, S.step s t → S.Ends t Q) (hend : S.Terminal s → Q s) :
    S.Ends s Q := by
  refine ⟨Acc.intro s fun t hst => (hstep t hst).1, fun t hst ht => ?_⟩
  rcases Relation.ReflTransGen.cases_head hst with rfl | ⟨u, hsu, hut⟩
  · exact hend ht
  · exact (hstep u hsu).2 t hut ht

theorem Ends.of_terminal {s : σ} {Q : σ → Prop} (h : S.Terminal s) (hQ : Q s) : S.Ends s Q :=
  Ends.of_steps (fun t hst => absurd hst (h t)) fun _ => hQ

/-- **The phase rule.**  As long as `T` can act, the steps of `S` are those of `T`; when `T` is over, `S` goes
on. -/
theorem Ends.phase (f : τ → σ) {R : τ → Prop} {Q : σ → Prop} (hlift : ∀ t t', T.step t t' → S.step (f t) (f t'))
    (hstep : ∀ t s, S.step (f t) s → (∃ t', T.step t t' ∧ s = f t') ∨ T.Terminal t ∧ (R t → S.Ends s Q))
    (hexit : ∀ t, T.Terminal t → R t → ¬ S.Terminal (f t)) {t : τ} (h : T.Ends t R) : S.Ends (f t) Q := by
  have hacc := h.1
  induction hacc with
  | intro t _ ih =>
    refine Ends.of_steps (fun s hs => ?_) fun hterminal => ?_
    · rcases hstep t s hs with ⟨t', htt', rfl⟩ | ⟨ht, hs⟩
      · exact ih t' htt' (h.step htt')
      · exact hs (h.2 t Relation.ReflTransGen.refl ht)
    · have ht : T.Terminal t := fun t' htt' => hterminal _ (hlift t t' htt')
      exact absurd hterminal (hexit t ht (h.2 t Relation.ReflTransGen.refl ht))

/-! ## Side by side -/

/-- The producer takes its steps; the consumer takes those that the output so far allows. -/
def pipeline (S : StepSystem σ) (out : σ → List M) (T : List M → StepSystem τ) : StepSystem (σ × τ) where
  init p := S.init p.1 ∧ (T (out p.1)).init p.2
  step p q := (S.step p.1 q.1 ∧ q.2 = p.2) ∨ (q.1 = p.1 ∧ (T (out p.1)).step p.2 q.2)

/-- **The pipeline rule.**  Output is never taken back, and more output allows more. -/
theorem pipeline_ends {out : σ → List M} {T : List M → StepSystem τ} (hout : ∀ s s', S.step s s' → out s <+: out s')
    (hmono : ∀ l l' t t', l <+: l' → (T l).step t t' → (T l').step t t') {s : σ} {t : τ} {Q : σ → Prop} {R : σ → τ → Prop}
    (hS : S.Ends s Q) (hT : ∀ s', Q s' → (T (out s')).Ends t (R s')) :
    (pipeline S out T).Ends (s, t) fun p => Q p.1 ∧ R p.1 p.2 := by
  have houts : ∀ s s', Relation.ReflTransGen S.step s s' → out s <+: out s' := fun s s' h => by
    induction h with
    | refl => exact List.prefix_refl _
    | tail _ hstep ih => exact ih.trans (hout _ _ hstep)
  -- what the consumer would do if the producer came to its end first
  have hT' : ∀ s', Relation.ReflTransGen S.step s s' → S.Terminal s' → (T (out s')).Ends t (R s') := fun s' hss' hs' =>
    hT s' (hS.2 s' hss' hs')
  clear hT
  have hacc := hS.1
  induction hacc generalizing t with
  | intro s _ ihs =>
    obtain ⟨s', hss', hs'⟩ := hS.1.exists_terminal
    have hacct := (hT' s' hss' hs').1
    induction hacct with
    | intro t _ iht =>
      refine Ends.of_steps ?_ fun hterminal => ?_
      · rintro ⟨s₁, t₁⟩ (⟨hstep, rfl⟩ | ⟨rfl, hstep⟩)
        · exact ihs s₁ hstep (hS.step hstep) fun u hu => hT' u (Relation.ReflTransGen.head hstep hu)
        · exact iht t₁ (hmono _ _ _ _ (houts _ _ hss') hstep) fun u hsu hu =>
            (hT' u hsu hu).step (hmono _ _ _ _ (houts _ _ hsu) hstep)
      · have hs : S.Terminal s := fun u hu => hterminal (u, t) (Or.inl ⟨hu, rfl⟩)
        exact ⟨hS.2 s Relation.ReflTransGen.refl hs, (hT' s Relation.ReflTransGen.refl hs).2 t Relation.ReflTransGen.refl
          fun u hu => hterminal (s, u) (Or.inr ⟨rfl, hu⟩)⟩

end StepSystem
end Library
end Spearhed
