import RegionSync.Network.Hub
import RegionSync.Proofs.Binary.Order

/-!
Messages where nothing is left to chance. If on every link all messages are lost or none is, nothing is
drawn, so whether a message gets through hangs on the link alone and sending it changes no conditions.
-/

namespace RegionSync.Network

namespace Conditions

variable {c : Conditions}

/-- On every link the chance of loss is zero or one. -/
def Certain (c : Conditions) : Prop :=
  ∀ link, (c.loss link).eq .zero = true ∨ (c.loss link).eq (.ofNat 1) = true

/-- Messages on the link get through: no partition separates its ends, and none is lost. -/
def carries (c : Conditions) (link : Link) : Bool :=
  c.connected link && (c.loss link).eq .zero

theorem delivers_of_certain (h : c.Certain) (link : Link) :
    c.delivers link = .ok (c.carries link, c) := by
  rw [delivers, carries]
  cases c.connected link with
  | false => rfl
  | true =>
      rcases h link with hzero | hone
      · have hle : (c.loss link).le .zero = true := by rw [Binary.le, hzero, Bool.or_true]
        rw [hle, hzero]
        rfl
      · have hloss : c.loss link = .ofNat 1 := by
          rw [Binary.ofNat_eq (by decide)] at hone ⊢
          exact Binary.eq_finite_of_eq (Nat.mul_pos Nat.one_pos Width.double.one_pos) hone
        have hle : (Binary.ofNat 1 : Double).le .zero = false := by decide +kernel
        have heq : (Binary.ofNat 1 : Double).eq .zero = false := by decide +kernel
        have hdraw : c.source.chance (.ofNat 1) = .ok (true, c.source) := by
          rw [Random.Generator.chance, if_pos (by decide +kernel)]
        rw [hloss, hle, heq, hdraw]
        rfl

end Conditions

namespace Hub

variable {ρ : Type} {h hub : Hub ρ} {link : Link}

/-- What sending a message leaves untouched: the routes, and the conditions if nothing is left to
chance. -/
structure Keeps (h hub : Hub ρ) : Prop where
  routes : hub.routes = h.routes
  conditions : h.conditions.Certain → hub.conditions = h.conditions

theorem keeps_hop {wait : Option Nat} (hhop : h.hop link = .ok (wait, hub)) : h.Keeps hub := by
  rw [hop] at hhop
  cases hdelivers : h.conditions.delivers link with
  | error fault =>
      rw [hdelivers] at hhop
      cases hhop
  | ok result =>
      obtain ⟨delivered, conditions⟩ := result
      have hsame : h.conditions.Certain → conditions = h.conditions := by
        intro hcertain
        rw [Conditions.delivers_of_certain hcertain] at hdelivers
        cases hdelivers
        rfl
      rw [hdelivers] at hhop
      cases delivered with
      | false =>
          cases hhop
          exact ⟨rfl, hsame⟩
      | true =>
          cases hhop
          exact ⟨rfl, hsame⟩

theorem Keeps.refl (h : Hub ρ) : h.Keeps h :=
  ⟨rfl, fun _ => rfl⟩

theorem Keeps.trans {h₁ h₂ h₃ : Hub ρ} (h₁₂ : h₁.Keeps h₂) (h₂₃ : h₂.Keeps h₃) : h₁.Keeps h₃ := by
  refine ⟨h₂₃.routes.trans h₁₂.routes, fun hcertain => ?_⟩
  have hsame := h₁₂.conditions hcertain
  exact (h₂₃.conditions (hsame ▸ hcertain)).trans hsame

theorem hop_of_certain (hcertain : h.conditions.Certain) (link : Link) :
    ∃ hub, h.hop link = .ok (if h.conditions.carries link then some (h.conditions.latency link)
      else none, hub) := by
  rw [hop, Conditions.delivers_of_certain hcertain]
  cases h.conditions.carries link with
  | false => exact ⟨_, rfl⟩
  | true => exact ⟨_, rfl⟩

theorem not_certain_of_hop {fault : Fault} (hhop : h.hop link = .error fault) :
    ¬ h.conditions.Certain := by
  intro hcertain
  obtain ⟨hub, heq⟩ := hop_of_certain hcertain link
  cases hhop.symm.trans heq

theorem wait_of_hop {wait : Option Nat} (hhop : h.hop link = .ok (wait, hub))
    (hcertain : h.conditions.Certain) :
    wait = if h.conditions.carries link then some (h.conditions.latency link) else none := by
  obtain ⟨hub', heq⟩ := hop_of_certain hcertain link
  cases hhop.symm.trans heq
  rfl

/-- Where nothing is left to chance, a message is lost only on a link that carries none. -/
theorem lost_of_hop (hhop : h.hop link = .ok (none, hub)) (hcertain : h.conditions.Certain) :
    ¬ h.conditions.carries link = true := by
  intro hcarries
  have hwait := wait_of_hop hhop hcertain
  rw [if_pos hcarries] at hwait
  cases hwait

/-- Where nothing is left to chance, a message that gets through takes the latency of its link. -/
theorem sent_of_hop {ms : Nat} (hhop : h.hop link = .ok (some ms, hub))
    (hcertain : h.conditions.Certain) :
    h.conditions.carries link = true ∧ ms = h.conditions.latency link := by
  have hwait := wait_of_hop hhop hcertain
  split at hwait
  · next hcarries => exact ⟨hcarries, Option.some.inj hwait⟩
  · cases hwait

end Hub

end RegionSync.Network
