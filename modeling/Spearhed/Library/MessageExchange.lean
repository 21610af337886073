import Mathlib.Algebra.Order.BigOperators.Group.Finset
import Mathlib.Data.Finset.Prod
import Mathlib.Logic.Function.Basic
import Mathlib.Order.CompletePartialOrder
import Spearhed.Library.StepSystem

/-!
# Processes that exchange messages

Every process packs some messages, posts them, and unpacks the ones it receives, in any interleaving.
A receive names the source and the tag of its message; messages with the same source, destination and
tag are received in the order in which they were posted, and nothing is known about the others.

In a matched exchange every receive has one send as its partner, and a process never has two receives
with the same source and tag.  If moreover no receive changes what a send of the same process packs,
the run comes to its end whatever the interleaving, and every process has unpacked each of its
messages once, as its partner packed it from its initial state (`Matched.ends`).
-/

namespace Spearhed
namespace Library

/-- How far a send is. -/
inductive SendPhase (M : Type)
  | pending
  | packed (m : M)
  | posted

/-- How far a receive is. -/
inductive ReceivePhase (M : Type)
  | pending
  | arrived (m : M)
  | over

/-- What the processes send and receive on their ports. -/
structure MessageExchange (P Port Tag D M : Type) where
  sends : Finset (P × Port)
  receives : Finset (P × Port)
  dest : P → Port → P
  source : P → Port → P
  sendTag : Port → Tag
  receiveTag : Port → Tag
  /-- The receives of the process that have to be over before this one starts. -/
  waitsFor : P → Port → Set Port
  pack : P → Port → D → M
  unpack : P → Port → M → D → D

/-- The processes, and the messages that are posted and not received, oldest first. -/
structure ExchangeState (P Port Tag D M : Type) where
  device : P → D
  sendPhase : P × Port → SendPhase M
  receivePhase : P × Port → ReceivePhase M
  mail : P × P × Tag → List M

namespace MessageExchange

variable {P Port Tag D M : Type} [DecidableEq P] [DecidableEq Port] [DecidableEq Tag]
variable (X : MessageExchange P Port Tag D M)

inductive Step : ExchangeState P Port Tag D M → ExchangeState P Port Tag D M → Prop
  | pack {s : ExchangeState P Port Tag D M} {A : P} {e : Port} :
    (A, e) ∈ X.sends → s.sendPhase (A, e) = .pending →
    Step s { s with sendPhase := Function.update s.sendPhase (A, e) (.packed (X.pack A e (s.device A))) }
  | post {s : ExchangeState P Port Tag D M} {A : P} {e : Port} {m : M} :
    (A, e) ∈ X.sends → s.sendPhase (A, e) = .packed m →
    Step s { s with
      sendPhase := Function.update s.sendPhase (A, e) .posted
      mail := Function.update s.mail (A, X.dest A e, X.sendTag e) (s.mail (A, X.dest A e, X.sendTag e) ++ [m]) }
  | deliver {s : ExchangeState P Port Tag D M} {B : P} {r : Port} {m : M} {rest : List M} :
    (B, r) ∈ X.receives → s.receivePhase (B, r) = .pending →
    (∀ r' ∈ X.waitsFor B r, s.receivePhase (B, r') = .over) →
    s.mail (X.source B r, B, X.receiveTag r) = m :: rest →
    Step s { s with
      receivePhase := Function.update s.receivePhase (B, r) (.arrived m)
      mail := Function.update s.mail (X.source B r, B, X.receiveTag r) rest }
  | unpack {s : ExchangeState P Port Tag D M} {B : P} {r : Port} {m : M} :
    (B, r) ∈ X.receives → s.receivePhase (B, r) = .arrived m →
    Step s { s with
      device := Function.update s.device B (X.unpack B r m (s.device B))
      receivePhase := Function.update s.receivePhase (B, r) .over }

/-- Before anything is packed. -/
def start (initial : P → D) : ExchangeState P Port Tag D M := ⟨initial, fun _ => .pending, fun _ => .pending, fun _ => []⟩

def system (initial : P → D) : StepSystem (ExchangeState P Port Tag D M) where
  init s := s = start initial
  step := X.Step

/-- Every receive has a partner that sends to it, and no two receives can get each other's message. -/
structure Matched where
  partner : P → Port → Port
  order : Port → ℕ
  partner_sends {B : P} {r : Port} : (B, r) ∈ X.receives → (X.source B r, partner B r) ∈ X.sends ∧
    X.dest (X.source B r) (partner B r) = B ∧ X.sendTag (partner B r) = X.receiveTag r
  sends_partner {A : P} {e : Port} : (A, e) ∈ X.sends → ∃ r, (X.dest A e, r) ∈ X.receives ∧
    X.source (X.dest A e) r = A ∧ partner (X.dest A e) r = e
  distinct {B : P} {r r' : Port} : (B, r) ∈ X.receives → (B, r') ∈ X.receives → X.source B r = X.source B r' →
    X.receiveTag r = X.receiveTag r' → r = r'
  waitsFor_lt {B : P} {r r' : Port} : r' ∈ X.waitsFor B r → (B, r') ∈ X.receives ∧ order r' < order r

/-- What a process packs does not depend on what it has unpacked. -/
def Separate : Prop := ∀ A e r m d, (A, e) ∈ X.sends → (A, r) ∈ X.receives →
  X.pack A e (X.unpack A r m d) = X.pack A e d

variable {X}

namespace Matched

variable (h : X.Matched) (initial : P → D)

/-- The message of a receive. -/
def message (B : P) (r : Port) : M := X.pack (X.source B r) (h.partner B r) (initial (X.source B r))

/-- What is left of a process after some receives. -/
def unpacked (B : P) (l : List Port) : D := l.foldl (fun d r => X.unpack B r (h.message initial B r) d) (initial B)

/-- The message `m` is on its way from the sender to the receiver. -/
inductive ChannelAt (m : M) : SendPhase M → List M → ReceivePhase M → Prop
  | toPack : ChannelAt m .pending [] .pending
  | toPost : ChannelAt m (.packed m) [] .pending
  | inFlight : ChannelAt m .posted [m] .pending
  | toUnpack : ChannelAt m .posted [] (.arrived m)
  | over : ChannelAt m .posted [] .over

/-- Every message is in one place, and a process has unpacked what is over. -/
structure Inv (s : ExchangeState P Port Tag D M) : Prop where
  channel : ∀ B r, (B, r) ∈ X.receives → ChannelAt (h.message initial B r)
    (s.sendPhase (X.source B r, h.partner B r)) (s.mail (X.source B r, B, X.receiveTag r)) (s.receivePhase (B, r))
  device : ∀ B, ∃ l : List Port, l.Nodup ∧ (∀ r, r ∈ l ↔ (B, r) ∈ X.receives ∧ s.receivePhase (B, r) = .over) ∧
    s.device B = h.unpacked initial B l

variable {h initial} {s t : ExchangeState P Port Tag D M}

omit [DecidableEq P] [DecidableEq Port] [DecidableEq Tag] in
theorem pack_unpacked (hseparate : X.Separate) {A : P} {e : Port} (he : (A, e) ∈ X.sends) {l : List Port}
    (hl : ∀ r ∈ l, (A, r) ∈ X.receives) : X.pack A e (h.unpacked initial A l) = X.pack A e (initial A) := by
  unfold unpacked
  generalize initial A = d
  induction l generalizing d with
  | nil => rfl
  | cons r l ih =>
    rw [List.foldl_cons, ih (fun r' hr' => hl r' (List.mem_cons_of_mem r hr')),
      hseparate A e r _ d he (hl r List.mem_cons_self)]

omit [DecidableEq P] [DecidableEq Port] [DecidableEq Tag] in
theorem inv_start : h.Inv initial (start initial) where
  channel _ _ _ := .toPack
  device _ := ⟨[], List.nodup_nil, fun _ => by simp [start], rfl⟩

omit [DecidableEq P] [DecidableEq Port] [DecidableEq Tag] in
/-- The receive a send belongs to is the only one with its source and tag. -/
theorem eq_of_tag {A B : P} {e r : Port} (he : (A, e) ∈ X.sends) (hr : (B, r) ∈ X.receives) (hsource : X.source B r = A)
    (hdest : B = X.dest A e) (htag : X.receiveTag r = X.sendTag e) : h.partner B r = e := by
  subst hdest
  obtain ⟨r', hr', hsource', hpartner⟩ := h.sends_partner he
  have htag' := (h.partner_sends hr').2.2
  rw [hpartner] at htag'
  obtain rfl := h.distinct hr hr' (hsource.trans hsource'.symm) (htag.trans htag')
  exact hpartner

omit [DecidableEq Tag] in
theorem Inv.pack (hinv : h.Inv initial s) (hseparate : X.Separate) {A : P} {e : Port} (he : (A, e) ∈ X.sends)
    (hphase : s.sendPhase (A, e) = .pending) :
    h.Inv initial { s with sendPhase := Function.update s.sendPhase (A, e) (.packed (X.pack A e (s.device A))) } where
  channel B r hr := by
    have hchannel := hinv.channel B r hr
    by_cases hsender : (X.source B r, h.partner B r) = (A, e)
    · obtain ⟨rfl, rfl⟩ := Prod.mk.inj hsender
      obtain ⟨l, -, hl, hdevice⟩ := hinv.device (X.source B r)
      have hmessage : X.pack (X.source B r) (h.partner B r) (s.device (X.source B r)) = h.message initial B r := by
        rw [hdevice, pack_unpacked hseparate he fun r' hr' => ((hl r').mp hr').1]
        rfl
      simp only [Function.update_self, hmessage]
      rw [hphase] at hchannel
      generalize s.mail _ = mail, s.receivePhase _ = receivePhase at hchannel ⊢
      cases hchannel
      exact .toPost
    · simpa only [Function.update_of_ne hsender] using hchannel
  device := hinv.device

theorem Inv.post (hinv : h.Inv initial s) {A : P} {e : Port} {m : M} (he : (A, e) ∈ X.sends)
    (hphase : s.sendPhase (A, e) = .packed m) :
    h.Inv initial { s with
      sendPhase := Function.update s.sendPhase (A, e) .posted
      mail := Function.update s.mail (A, X.dest A e, X.sendTag e) (s.mail (A, X.dest A e, X.sendTag e) ++ [m]) } where
  channel B r hr := by
    have hchannel := hinv.channel B r hr
    obtain ⟨-, hdest, htag⟩ := h.partner_sends hr
    by_cases hsender : (X.source B r, h.partner B r) = (A, e)
    · obtain ⟨rfl, rfl⟩ := Prod.mk.inj hsender
      rw [hdest, htag]
      simp only [Function.update_self]
      rw [hphase] at hchannel
      generalize s.mail _ = mail, s.receivePhase _ = receivePhase at hchannel ⊢
      cases hchannel
      exact .inFlight
    · have hkey : (X.source B r, B, X.receiveTag r) ≠ (A, X.dest A e, X.sendTag e) := by
        intro heq
        obtain ⟨hsource, hrest⟩ := Prod.mk.inj heq
        obtain ⟨hB, htag'⟩ := Prod.mk.inj hrest
        exact hsender (Prod.ext hsource (eq_of_tag he hr hsource hB htag'))
      simpa only [Function.update_of_ne hsender, Function.update_of_ne hkey] using hchannel
  device := hinv.device

theorem Inv.deliver (hinv : h.Inv initial s) {B : P} {r : Port} {m : M} {rest : List M} (hr : (B, r) ∈ X.receives)
    (hphase : s.receivePhase (B, r) = .pending) (hmail : s.mail (X.source B r, B, X.receiveTag r) = m :: rest) :
    h.Inv initial { s with
      receivePhase := Function.update s.receivePhase (B, r) (.arrived m)
      mail := Function.update s.mail (X.source B r, B, X.receiveTag r) rest } where
  channel B' r' hr' := by
    have hchannel := hinv.channel B' r' hr'
    by_cases hreceiver : (B', r') = (B, r)
    · obtain ⟨rfl, rfl⟩ := Prod.mk.inj hreceiver
      simp only [Function.update_self]
      rw [hphase, hmail] at hchannel
      generalize s.sendPhase _ = sendPhase at hchannel ⊢
      cases hchannel
      exact .toUnpack
    · have hkey : (X.source B' r', B', X.receiveTag r') ≠ (X.source B r, B, X.receiveTag r) := by
        intro heq
        obtain ⟨hsource, hrest⟩ := Prod.mk.inj heq
        obtain ⟨rfl, htag⟩ := Prod.mk.inj hrest
        exact hreceiver (Prod.ext rfl (h.distinct hr' hr hsource htag))
      simpa only [Function.update_of_ne hreceiver, Function.update_of_ne hkey] using hchannel
  device B' := by
    obtain ⟨l, hnodup, hl, hdevice⟩ := hinv.device B'
    refine ⟨l, hnodup, fun r' => (hl r').trans (and_congr_right fun _ => ?_), hdevice⟩
    by_cases hreceiver : (B', r') = (B, r)
    · rw [hreceiver, hphase]
      simp
    · simp only [Function.update_of_ne hreceiver]

omit [DecidableEq Tag] in
theorem Inv.unpack (hinv : h.Inv initial s) {B : P} {r : Port} {m : M} (hr : (B, r) ∈ X.receives)
    (hphase : s.receivePhase (B, r) = .arrived m) :
    h.Inv initial { s with
      device := Function.update s.device B (X.unpack B r m (s.device B))
      receivePhase := Function.update s.receivePhase (B, r) .over } where
  channel B' r' hr' := by
    have hchannel := hinv.channel B' r' hr'
    by_cases hreceiver : (B', r') = (B, r)
    · obtain ⟨rfl, rfl⟩ := Prod.mk.inj hreceiver
      simp only [Function.update_self]
      rw [hphase] at hchannel
      generalize s.sendPhase _ = sendPhase, s.mail _ = mail at hchannel ⊢
      cases hchannel
      exact .over
    · simpa only [Function.update_of_ne hreceiver] using hchannel
  device B' := by
    obtain ⟨l, hnodup, hl, hdevice⟩ := hinv.device B'
    rcases eq_or_ne B' B with rfl | hB
    · have hmessage : m = h.message initial B' r := by
        have hchannel := hinv.channel B' r hr
        rw [hphase] at hchannel
        generalize s.sendPhase _ = sendPhase, s.mail _ = mail at hchannel
        cases hchannel
        rfl
      have hnotover : r ∉ l := fun hmem => by
        have := ((hl r).mp hmem).2
        rw [hphase] at this
        cases this
      refine ⟨l ++ [r], hnodup.append (List.nodup_singleton r) (by simpa using hnotover), fun r' => ?_, ?_⟩
      · rw [List.mem_append, List.mem_singleton, hl]
        rcases eq_or_ne r' r with rfl | hr'
        · simp [hr]
        · simp [hr']
      · simp only [Function.update_self]
        rw [hdevice, hmessage, unpacked, unpacked, List.foldl_append]
        rfl
    · refine ⟨l, hnodup, fun r' => ?_, ?_⟩
      · simp only [Function.update_of_ne (show (B', r') ≠ (B, r) from fun heq => hB (Prod.mk.inj heq).1), hl]
      · simpa only [Function.update_of_ne hB] using hdevice

theorem Inv.step (hinv : h.Inv initial s) (hseparate : X.Separate) (hstep : X.Step s t) : h.Inv initial t := by
  cases hstep with
  | pack he hphase => exact hinv.pack hseparate he hphase
  | post he hphase => exact hinv.post he hphase
  | deliver hr hphase _ hmail => exact hinv.deliver hr hphase hmail
  | unpack hr hphase => exact hinv.unpack hr hphase

theorem inv_of_reachable (hseparate : X.Separate) (hs : (X.system initial).Reachable s) : h.Inv initial s :=
  hs.invariant (fun _ hinit => hinit ▸ inv_start) fun _ _ _ hinv hstep => hinv.step hseparate hstep

end Matched

/-! ## Every run comes to its end -/

/-- The steps a send still takes. -/
def sendWork : SendPhase M → ℕ
  | .pending => 2
  | .packed _ => 1
  | .posted => 0

/-- The steps a receive still takes. -/
def receiveWork : ReceivePhase M → ℕ
  | .pending => 2
  | .arrived _ => 1
  | .over => 0

/-- The steps a run still takes. -/
def work (X : MessageExchange P Port Tag D M) (s : ExchangeState P Port Tag D M) : ℕ :=
  ∑ c ∈ X.sends, sendWork (s.sendPhase c) + ∑ c ∈ X.receives, receiveWork (s.receivePhase c)

omit [DecidableEq P] [DecidableEq Port] [DecidableEq Tag] in
theorem sum_update_lt {ι α : Type} [DecidableEq ι] {I : Finset ι} {f : ι → α} {i : ι} {x : α} (hi : i ∈ I)
    {μ : α → ℕ} (hx : μ x < μ (f i)) : ∑ j ∈ I, μ (Function.update f i x j) < ∑ j ∈ I, μ (f j) := by
  refine Finset.sum_lt_sum (fun j _ => ?_) ⟨i, hi, by rwa [Function.update_self]⟩
  rcases eq_or_ne j i with rfl | hj
  · rw [Function.update_self]
    exact hx.le
  · rw [Function.update_of_ne hj]

variable {s t : ExchangeState P Port Tag D M}

theorem Step.work_lt (hstep : X.Step s t) : X.work t < X.work s := by
  cases hstep with
  | pack he hphase => exact Nat.add_lt_add_right (sum_update_lt he (by simp [hphase, sendWork])) _
  | post he hphase => exact Nat.add_lt_add_right (sum_update_lt he (by simp [hphase, sendWork])) _
  | deliver hr hphase _ _ => exact Nat.add_lt_add_left (sum_update_lt hr (by simp [hphase, receiveWork])) _
  | unpack hr hphase => exact Nat.add_lt_add_left (sum_update_lt hr (by simp [hphase, receiveWork])) _

namespace Matched

variable {h : X.Matched} {initial : P → D}

theorem posted_of_terminal (hterminal : (X.system initial).Terminal s) {A : P} {e : Port} (he : (A, e) ∈ X.sends) :
    s.sendPhase (A, e) = .posted := by
  cases hphase : s.sendPhase (A, e) with
  | pending => exact absurd (Step.pack he hphase) (hterminal _)
  | packed m => exact absurd (Step.post he hphase) (hterminal _)
  | posted => rfl

/-- Where no process can act, every message has been unpacked; by induction on the order of the receives. -/
theorem over_of_terminal (hinv : h.Inv initial s) (hterminal : (X.system initial).Terminal s) {B : P} {r : Port}
    (hr : (B, r) ∈ X.receives) : s.receivePhase (B, r) = .over := by
  induction hn : h.order r using Nat.strong_induction_on generalizing r with
  | _ n ih =>
    have hwaits : ∀ r' ∈ X.waitsFor B r, s.receivePhase (B, r') = .over := fun r' hr' =>
      ih (h.order r') (hn ▸ (h.waitsFor_lt hr').2) (h.waitsFor_lt hr').1 rfl
    have hchannel := hinv.channel B r hr
    rw [posted_of_terminal hterminal (h.partner_sends hr).1] at hchannel
    cases hphase : s.receivePhase (B, r) with
    | pending =>
      rw [hphase] at hchannel
      generalize hmail : s.mail _ = mail at hchannel
      cases hchannel
      exact absurd (Step.deliver hr hphase hwaits hmail) (hterminal _)
    | arrived m => exact absurd (Step.unpack hr hphase) (hterminal _)
    | «over» => rfl

/-- **A matched exchange delivers every message once**, and comes to its end. -/
theorem ends (h : X.Matched) (hseparate : X.Separate) (initial : P → D) :
    (X.system initial).Ends (start initial) fun s => ∀ B, ∃ l : List Port,
      l.Nodup ∧ (∀ r, r ∈ l ↔ (B, r) ∈ X.receives) ∧ s.device B = h.unpacked initial B l := by
  have hstart : (X.system initial).Reachable (start initial) := .init rfl
  refine ⟨hstart.terminating X.work fun _ _ _ hstep => Step.work_lt hstep, fun s hrun hterminal B => ?_⟩
  have hinv := inv_of_reachable (h := h) hseparate (hstart.trans hrun)
  obtain ⟨l, hnodup, hl, hdevice⟩ := hinv.device B
  refine ⟨l, hnodup, fun r => (hl r).trans ⟨And.left, fun hr => ⟨hr, ?_⟩⟩, hdevice⟩
  exact over_of_terminal hinv hterminal hr

end Matched

end MessageExchange

/-! ## Updates of disjoint regions -/

/-- Updates, each of a region of its own, leave in every region what its update puts there. -/
theorem foldl_regions {ι C V : Type} {f : (C → V) → ι → C → V} {R : ι → Set C} {v : ι → C → V} {l : List ι}
    (hinside : ∀ i ∈ l, ∀ d, ∀ c ∈ R i, f d i c = v i c) (houtside : ∀ i ∈ l, ∀ d, ∀ c ∉ R i, f d i c = d c)
    (hdisjoint : ∀ i ∈ l, ∀ j ∈ l, i ≠ j → Disjoint (R i) (R j)) (d : C → V) (c : C) :
    (∀ i ∈ l, c ∈ R i → l.foldl f d c = v i c) ∧ ((∀ i ∈ l, c ∉ R i) → l.foldl f d c = d c) := by
  induction l generalizing d with
  | nil => exact ⟨fun i hi => absurd hi List.not_mem_nil, fun _ => rfl⟩
  | cons i l ih =>
    obtain ⟨ih_inside, ih_outside⟩ := ih (fun j hj => hinside j (List.mem_cons_of_mem i hj))
      (fun j hj => houtside j (List.mem_cons_of_mem i hj))
      (fun j hj k hk => hdisjoint j (List.mem_cons_of_mem i hj) k (List.mem_cons_of_mem i hk)) (f d i)
    rw [List.foldl_cons]
    refine ⟨fun j hj hc => ?_, fun hc => ?_⟩
    · by_cases hlater : ∃ k ∈ l, c ∈ R k
      · obtain ⟨k, hk, hck⟩ := hlater
        have hkj : k = j := by
          by_contra hne
          exact Set.disjoint_left.mp (hdisjoint k (List.mem_cons_of_mem i hk) j hj hne) hck hc
        exact hkj ▸ ih_inside k hk hck
      · rcases List.mem_cons.mp hj with rfl | hj
        · rw [ih_outside fun k hk hck => hlater ⟨k, hk, hck⟩]
          exact hinside j List.mem_cons_self d c hc
        · exact absurd ⟨j, hj, hc⟩ hlater
    · rw [ih_outside fun k hk => hc k (List.mem_cons_of_mem i hk)]
      exact houtside i List.mem_cons_self d c (hc i List.mem_cons_self)

/-- Updates that add leave the sum of what they add. -/
theorem foldl_adds {ι C V : Type} [AddCommMonoid V] {f : (C → V) → ι → C → V} {a : ι → C → V} {l : List ι}
    (hadd : ∀ i ∈ l, ∀ d c, f d i c = d c + a i c) (d : C → V) (c : C) : l.foldl f d c = d c + (l.map (a · c)).sum := by
  induction l generalizing d with
  | nil => rw [List.map_nil, List.sum_nil, add_zero, List.foldl_nil]
  | cons i l ih =>
    rw [List.foldl_cons, ih (fun j hj => hadd j (List.mem_cons_of_mem i hj)), hadd i List.mem_cons_self, List.map_cons,
      List.sum_cons, add_assoc]

end Library
end Spearhed
