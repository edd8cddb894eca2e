import Aetherion.Base.Driver

/-!
# Devices with a state

A `Driver.Peripheral` is a state machine at the other end of the wire: it answers a read from its
state, and every exchange moves it on.  Started in a state, it is a `Driver.Device`.

Against such a device a program is a function from states to states.  `Peripheral.Runs` says what
the value is and where the device ends up, whatever came before the program started, and the rules
are those of a program that carries the state itself: a sequence runs through the state in between
(`Runs.bind`), and a loop through as many as it makes passes (`runs_forEach`, `runs_forLoop`).
-/

set_option autoImplicit false

namespace Driver

/-- A device with a state. -/
structure Peripheral (F : Iface) (σ : Type) where
  /-- The answer to a read. -/
  reply : σ → (i : F.In) → F.Reply i
  /-- The state after an exchange. -/
  step : σ → Event F → σ

namespace Peripheral

open Prog

variable {F : Iface} {σ α β τ ε : Type} (per : Peripheral F σ)

/-- The state after a history. -/
def after (s : σ) (h : Trace F) : σ := h.foldl per.step s

@[simp] theorem after_nil (s : σ) : per.after s [] = s := rfl

@[simp] theorem after_cons (s : σ) (e : Event F) (h : Trace F) :
    per.after s (e :: h) = per.after (per.step s e) h := rfl

@[simp] theorem after_append (s : σ) (h u : Trace F) :
    per.after s (h ++ u) = per.after (per.after s h) u := List.foldl_append ..

/-- What no step of this kind changes is not changed by a history of such steps. -/
theorem view_after {E : Event F → Prop} {view : σ → τ}
    (hstep : ∀ s e, E e → view (per.step s e) = view s) {h : Trace F} (hh : ∀ e ∈ h, E e) (s : σ) :
    view (per.after s h) = view s := by
  induction h generalizing s with
  | nil => rfl
  | cons e h ih =>
    rw [after_cons, ih fun e he ↦ hh e (List.mem_cons_of_mem _ he)]
    exact hstep s e (hh e List.mem_cons_self)

/-- The device, started in a state. -/
def device (s₀ : σ) : Device F := fun h i ↦ per.reply (per.after s₀ h) i

/-- **Started whenever the device is in state `s`**, the program ends with the value `a` and leaves
the device in state `s'`. -/
def Runs (s₀ : σ) (p : Prog F α) (s : σ) (a : α) (s' : σ) : Prop :=
  ∀ h, per.after s₀ h = s → p.value (per.device s₀) h = a ∧
    per.after s₀ (h ++ p.trace (per.device s₀) h) = s'

variable {per} {s₀ s s' s'' : σ}

theorem runs_pure (a : α) : per.Runs s₀ (pure a) s a s := by
  intro h hs
  exact ⟨rfl, by simpa using hs⟩

theorem runs_emit (o : F.Out) : per.Runs s₀ (emit o) s () (per.step s (.out o)) := by
  intro h hs
  exact ⟨rfl, by simp [hs]⟩

theorem runs_ask (i : F.In) :
    per.Runs s₀ (ask i) s (per.reply s i) (per.step s (.inp i (per.reply s i))) := by
  intro h hs
  have hreply : per.device s₀ h i = per.reply s i := by rw [device, hs]
  exact ⟨hreply, by simp [hs, hreply]⟩

/-- **A sequence** runs through the state its first part leaves. -/
theorem Runs.bind {p : Prog F α} {f : α → Prog F β} {a : α} {b : β} (hp : per.Runs s₀ p s a s')
    (hf : per.Runs s₀ (f a) s' b s'') : per.Runs s₀ (p >>= f) s b s'' := by
  intro h hs
  obtain ⟨hvalue, hafter⟩ := hp h hs
  obtain ⟨hvalue', hafter'⟩ := hf _ hafter
  rw [value_bind, trace_bind, hvalue, ← List.append_assoc]
  exact ⟨hvalue', hafter'⟩

theorem Runs.of_eq {p : Prog F α} {a a' : α} {t : σ} (hp : per.Runs s₀ p s a s') (ha : a = a')
    (ht : s' = t) : per.Runs s₀ p s a' t := ha ▸ ht ▸ hp

/-- **A loop** that goes through the loop states `a i` and the device states `s i`. -/
theorem runs_forEach {body : ℕ → τ → Prog F τ} {a : ℕ → τ} {s : ℕ → σ} {n : ℕ}
    (hb : ∀ i < n, per.Runs s₀ (body i (a i)) (s i) (a (i + 1)) (s (i + 1))) :
    per.Runs s₀ (forEach body n 0 (a 0)) (s 0) (a n) (s n) := by
  have hfrom (k lo : ℕ) (hk : lo + k = n) :
      per.Runs s₀ (forEach body k lo (a lo)) (s lo) (a n) (s n) := by
    induction k generalizing lo with
    | zero => exact hk ▸ runs_pure _
    | succ k ih => exact (hb lo (by omega)).bind (ih (lo + 1) (by omega))
  exact hfrom n 0 (Nat.zero_add n)

/-- The same for a loop that can be left early, when it is not. -/
theorem runs_forLoop {body : ℕ → τ → Prog F (Except ε τ)} {a : ℕ → τ} {s : ℕ → σ} {n : ℕ}
    (hb : ∀ i < n, per.Runs s₀ (body i (a i)) (s i) (.ok (a (i + 1))) (s (i + 1))) :
    per.Runs s₀ (forLoop body n 0 (a 0)) (s 0) (.ok (a n)) (s n) := by
  have hfrom (k lo : ℕ) (hk : lo + k = n) :
      per.Runs s₀ (forLoop body k lo (a lo)) (s lo) (.ok (a n)) (s n) := by
    induction k generalizing lo with
    | zero => exact hk ▸ runs_pure _
    | succ k ih => exact (hb lo (by omega)).bind (ih (lo + 1) (by omega))
  exact hfrom n 0 (Nat.zero_add n)

/-- A loop that is left in its first pass. -/
theorem runs_forLoop_error {body : ℕ → τ → Prog F (Except ε τ)} {n lo : ℕ} {a : τ} {r : ε}
    (hb : per.Runs s₀ (body lo a) s (.error r) s') :
    per.Runs s₀ (forLoop body (n + 1) lo a) s (.error r) s' := by
  rw [forLoop]
  exact hb.bind (runs_pure _)

/-! ## What a program does to a part of the state -/

variable (per) {τ : Type} (view : σ → τ)

/-- **Whenever it is started**, the program returns what `f` makes of the part that is seen of the
device's state, and leaves that part as it is. -/
def Reads (p : Prog F α) (f : τ → α) : Prop :=
  ∀ s₀ h, p.value (per.device s₀) h = f (view (per.after s₀ h)) ∧
    view (per.after s₀ (h ++ p.trace (per.device s₀) h)) = view (per.after s₀ h)

/-- **Whenever it is started**, the program changes the part that is seen as `g` does. -/
def Writes (p : Prog F Unit) (g : τ → τ) : Prop :=
  ∀ s₀ h, view (per.after s₀ (h ++ p.trace (per.device s₀) h)) = g (view (per.after s₀ h))

variable {per view}

theorem reads_of_runs {p : Prog F α} {f : τ → α} {next : σ → σ}
    (hp : ∀ s₀ s, per.Runs s₀ p s (f (view s)) (next s)) (hnext : ∀ s, view (next s) = view s) :
    per.Reads view p f := by
  intro s₀ h
  obtain ⟨hvalue, hafter⟩ := hp s₀ _ h rfl
  rw [hafter]
  exact ⟨hvalue, hnext _⟩

theorem writes_of_runs {p : Prog F Unit} {g : τ → τ} {next : σ → σ}
    (hp : ∀ s₀ s, per.Runs s₀ p s () (next s)) (hnext : ∀ s, view (next s) = g (view s)) :
    per.Writes view p g := by
  intro s₀ h
  rw [(hp s₀ _ h rfl).2]
  exact hnext _

theorem reads_pure (a : α) : per.Reads view (pure a) fun _ ↦ a := fun s₀ h ↦
  ⟨rfl, by rw [trace_pure, List.append_nil]⟩

/-- **A sequence of reads.** -/
theorem Reads.bind {p : Prog F α} {q : α → Prog F β} {f : τ → α} {g : α → τ → β}
    (hp : per.Reads view p f) (hq : ∀ a, per.Reads view (q a) (g a)) :
    per.Reads view (p >>= q) fun t ↦ g (f t) t := by
  intro s₀ h
  obtain ⟨hvalue, hview⟩ := hp s₀ h
  obtain ⟨hvalue', hview'⟩ := hq (f (view (per.after s₀ h))) s₀ (h ++ p.trace (per.device s₀) h)
  rw [hview] at hvalue' hview'
  rw [value_bind, trace_bind, hvalue, ← List.append_assoc]
  exact ⟨hvalue', hview'⟩

theorem Reads.of_eq {p : Prog F α} {f g : τ → α} (hp : per.Reads view p f) (hfg : ∀ t, f t = g t) :
    per.Reads view p g := funext hfg ▸ hp

/-- **A loop of reads.** -/
theorem reads_forEach {body : ℕ → β → Prog F β} {g : ℕ → β → τ → β}
    (hb : ∀ i b, per.Reads view (body i b) (g i b)) (n lo : ℕ) (b : β) :
    per.Reads view (forEach body n lo b)
      fun t ↦ (List.range' lo n).foldl (fun b i ↦ g i b t) b := by
  induction n generalizing lo b with
  | zero => exact reads_pure b
  | succ n ih => exact (hb lo b).bind fun b ↦ ih (lo + 1) b

/-- A read after a write. -/
theorem Writes.value_bind_reads {p : Prog F Unit} {q : Prog F α} {g : τ → τ} {f : τ → α}
    (hp : per.Writes view p g) (hq : per.Reads view q f) (s₀ : σ) (h : Trace F) :
    (p >>= fun _ ↦ q).value (per.device s₀) h = f (g (view (per.after s₀ h))) := by
  rw [value_bind, (hq s₀ _).1, hp s₀ h]

end Peripheral
end Driver
