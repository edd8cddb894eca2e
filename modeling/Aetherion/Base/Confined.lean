import Mathlib.Logic.Function.Basic
import Aetherion.Base.Peripheral

/-!
# Programs that keep to a part of the machine

A program is *confined* to a part of an interface when all its exchanges are in that part, and when
nothing but the answers to the reads of that part decides what it does.  Programs are put together
from confined ones as they are put together from exchanges (`Confined.bind`, `confined_forLoop`),
so it is a matter of looking at the exchanges.

What is known of a confined program next to one device holds next to any other: several devices on
one bus (`Peripheral.bus`) do not notice a program for one of them, and it does not notice them
(`Runs.on_bus`).
-/

set_option autoImplicit false

namespace Driver

variable {F : Iface} {α β σ ε ι : Type}

/-- A part of an interface. -/
structure Part (F : Iface) where
  /-- The reads. -/
  reads : F.In → Prop
  /-- The writes. -/
  writes : F.Out → Prop

/-- The exchange is in the part. -/
def Part.Has (part : Part F) : Event F → Prop
  | .out o => part.writes o
  | .inp i _ => part.reads i

namespace Prog

/-- After these two histories, the devices answer the reads of the part alike, for as long as all
exchanges are in the part. -/
def AgreeOn (part : Part F) (dev dev' : Device F) (h h' : Trace F) : Prop :=
  ∀ t, (∀ e ∈ t, part.Has e) → ∀ i, part.reads i → dev (h ++ t) i = dev' (h' ++ t) i

/-- All exchanges are in the part, and the rest of the machine decides nothing. -/
structure Confined (part : Part F) (p : Prog F α) : Prop where
  emits : Emits part.Has p
  agrees : ∀ dev dev' h h', AgreeOn part dev dev' h h' → p dev h = p dev' h'

variable {part : Part F}

theorem AgreeOn.append {dev dev' : Device F} {h h' t : Trace F}
    (hagree : AgreeOn part dev dev' h h') (ht : ∀ e ∈ t, part.Has e) :
    AgreeOn part dev dev' (h ++ t) (h' ++ t) := by
  intro u hu i hi
  have hboth : ∀ e ∈ t ++ u, part.Has e := fun e he ↦ (List.mem_append.mp he).elim (ht e) (hu e)
  rw [List.append_assoc, List.append_assoc]
  exact hagree (t ++ u) hboth i hi

/-! ## Programs put together -/

theorem confined_pure (a : α) : Confined part (pure a : Prog F α) :=
  ⟨emits_pure a, fun _ _ _ _ _ ↦ rfl⟩

theorem confined_emit {o : F.Out} (ho : part.writes o) : Confined part (emit o : Prog F Unit) :=
  ⟨emits_emit ho, fun _ _ _ _ _ ↦ rfl⟩

theorem confined_ask {i : F.In} (hi : part.reads i) :
    Confined part (ask i : Prog F (F.Reply i)) := by
  refine ⟨emits_ask fun _ ↦ hi, fun dev dev' h h' hagree ↦ ?_⟩
  have hanswer := hagree [] nofun i hi
  rw [List.append_nil, List.append_nil] at hanswer
  rw [ask, ask, hanswer]

theorem Confined.bind {p : Prog F α} {f : α → Prog F β} (hp : Confined part p)
    (hf : ∀ a, Confined part (f a)) : Confined part (p >>= f) := by
  refine ⟨hp.emits.bind fun a ↦ (hf a).emits, fun dev dev' h h' hagree ↦ ?_⟩
  have hfirst := hp.agrees dev dev' h h' hagree
  have hrest := (hf (p.value dev h)).agrees dev dev' _ _ (hagree.append (hp.emits dev h))
  have hvalue : p.value dev' h' = p.value dev h := congrArg Prod.fst hfirst.symm
  have htrace : p.trace dev' h' = p.trace dev h := congrArg Prod.snd hfirst.symm
  refine Prod.ext ?_ ?_
  · change (p >>= f).value dev h = (p >>= f).value dev' h'
    rw [value_bind, value_bind, hvalue, htrace]
    exact congrArg Prod.fst hrest
  · change (p >>= f).trace dev h = (p >>= f).trace dev' h'
    rw [trace_bind, trace_bind, hvalue, htrace]
    exact congrArg (p.trace dev h ++ ·) (congrArg Prod.snd hrest)

theorem Confined.ite {c : Prop} [Decidable c] {p q : Prog F α} (hp : Confined part p)
    (hq : Confined part q) : Confined part (if c then p else q) := by
  split
  · exact hp
  · exact hq

theorem confined_forEach {body : ℕ → σ → Prog F σ} (hb : ∀ i a, Confined part (body i a)) :
    ∀ (n lo : ℕ) (a : σ), Confined part (forEach body n lo a)
  | 0, _, a => confined_pure a
  | n + 1, lo, a => (hb lo a).bind fun a' ↦ confined_forEach hb n (lo + 1) a'

theorem confined_forLoop {body : ℕ → σ → Prog F (Except ε σ)}
    (hb : ∀ i a, Confined part (body i a)) :
    ∀ (n lo : ℕ) (a : σ), Confined part (forLoop body n lo a)
  | 0, _, _ => confined_pure _
  | n + 1, lo, a => (hb lo a).bind fun r ↦ by
    cases r with
    | error r => exact confined_pure _
    | ok a' => exact confined_forLoop hb n (lo + 1) a'

end Prog

/-! ## Several devices on a bus -/

namespace Peripheral

open Prog

/-- Devices on one bus: all of them see every exchange, and `owner` says which of them answers a
read. -/
def bus (per : ι → Peripheral F σ) (owner : F.In → ι) : Peripheral F (ι → σ) where
  reply s i := (per (owner i)).reply (s (owner i)) i
  step s e k := (per k).step (s k) e

/-- The device takes no notice of what happens in the part. -/
def Disregards (per : Peripheral F σ) (part : Part F) : Prop :=
  ∀ s e, part.Has e → per.step s e = s

theorem Disregards.after {per : Peripheral F σ} {part : Part F} (hper : per.Disregards part)
    {t : Trace F} (ht : ∀ e ∈ t, part.Has e) (s : σ) : per.after s t = s := by
  induction t with
  | nil => rfl
  | cons e t ih =>
    rw [after_cons, hper s e (ht e List.mem_cons_self)]
    exact ih fun e' he' ↦ ht e' (List.mem_cons_of_mem _ he')

variable {per : ι → Peripheral F σ} {owner : F.In → ι} {part : Part F}

theorem after_bus (s : ι → σ) (h : Trace F) (k : ι) :
    (bus per owner).after s h k = (per k).after (s k) h := by
  induction h generalizing s with
  | nil => rfl
  | cons e h ih =>
    rw [after_cons, ih, after_cons]
    rfl

/-- **The frame rule**: a program for device `k` runs on the bus as it runs next to that device
alone, and leaves the others as they are. -/
theorem Runs.on_bus [DecidableEq ι] {k : ι} {p : Prog F α} {s₀ s : ι → σ} {a : α} {s' : σ}
    (hp : (per k).Runs (s₀ k) p (s k) a s') (hpart : Confined part p)
    (howner : ∀ i, part.reads i → owner i = k)
    (hothers : ∀ j, j ≠ k → (per j).Disregards part) :
    (bus per owner).Runs s₀ p s a (Function.update s k s') := by
  intro h hs
  have hafter (j : ι) : (per j).after (s₀ j) h = s j := by rw [← after_bus, hs]
  have hagree : AgreeOn part ((bus per owner).device s₀) ((per k).device (s₀ k)) h h := by
    intro t _ i hi
    have hseen : (bus per owner).after s₀ (h ++ t) k = (per k).after (s₀ k) (h ++ t) :=
      after_bus s₀ (h ++ t) k
    rw [device, device, ← hseen, bus]
    simp only [howner i hi]
  have hsame := hpart.agrees _ _ h h hagree
  obtain ⟨hvalue, hstate⟩ := hp h (hafter k)
  refine ⟨(congrArg Prod.fst hsame).trans hvalue, funext fun j ↦ ?_⟩
  have htrace : p.trace ((bus per owner).device s₀) h = p.trace ((per k).device (s₀ k)) h :=
    congrArg Prod.snd hsame
  rw [after_bus, htrace]
  by_cases hj : j = k
  · subst hj
    rw [Function.update_self, hstate]
  · rw [Function.update_of_ne hj, after_append, hafter j]
    exact (hothers j hj).after (hpart.emits _ h) _

end Peripheral
end Driver
