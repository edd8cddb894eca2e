import Aetherion.Base.Peripheral

/-!
# Devices with somebody watching

What a program does next to a device with a state (`Peripheral.Runs`), and what somebody sees of it
who watches the exchanges, an `Observer`, in one judgement: `Peripheral.Seen`.  The two states need
have nothing to do with each other.

Most exchanges of a program are with the device and nobody sees them (`Runs.seen`); some are for the
observer alone.  The rules for putting programs together are those of `Runs`.
-/

set_option autoImplicit false

namespace Driver.Peripheral

open Prog

variable {F : Iface} {σ τ ω α β ε : Type}

/-- **Started whenever the device is in state `s`**, the program ends with the value `a`, leaves the
device in state `s'`, and takes the observer from `t` to `t'`. -/
def Seen (per : Peripheral F σ) (m : Observer F τ ω) (s₀ : σ) (p : Prog F α) (s : σ) (t : τ) (a : α)
    (s' : σ) (t' : τ) : Prop :=
  ∀ h, per.after s₀ h = s → p.value (per.device s₀) h = a ∧
    per.after s₀ (h ++ p.trace (per.device s₀) h) = s' ∧
    m.after t (p.trace (per.device s₀) h) = t'

variable {per : Peripheral F σ} {m : Observer F τ ω} {s₀ s s' s'' : σ} {t t' t'' : τ}

/-- Nothing is seen of a program whose exchanges the observer ignores. -/
theorem Runs.seen {p : Prog F α} {a : α} (hp : per.Runs s₀ p s a s') (hignore : Emits m.Ignores p)
    (t : τ) : per.Seen m s₀ p s t a s' t := fun h hs ↦
  ⟨(hp h hs).1, (hp h hs).2, m.after_of_ignores (hignore _ h) t⟩

/-- **A sequence** is seen part by part. -/
theorem Seen.bind {p : Prog F α} {f : α → Prog F β} {a : α} {b : β}
    (hp : per.Seen m s₀ p s t a s' t') (hf : per.Seen m s₀ (f a) s' t' b s'' t'') :
    per.Seen m s₀ (p >>= f) s t b s'' t'' := by
  intro h hs
  obtain ⟨hvalue, hafter, hseen⟩ := hp h hs
  obtain ⟨hvalue', hafter', hseen'⟩ := hf _ hafter
  rw [value_bind, trace_bind, hvalue, ← List.append_assoc, m.after_append, hseen]
  exact ⟨hvalue', hafter', hseen'⟩

end Driver.Peripheral
