import Aetherion.Base.Confined

/-!
# Programs that do not get in each other's way

Several programs run one after the other on a machine, each of them for one of the devices.  A
device is *attached* where it answers the reads of its part, whatever else there is on the machine;
and it *minds* its part if nothing that is exchanged elsewhere moves it.

If the programs for a device read nothing else and those for the others stay out of its part, then
the device and its programs are alone: the programs end as they would on a machine with nothing but
that device and without the other programs, whatever order they all come in
(`Attached.alone`).
-/

set_option autoImplicit false

namespace Driver

variable {F : Iface} {α σ ι : Type}

namespace Prog

/-- A program for every device that is named, in this order; what each of them ends with. -/
def inTurn : List (ι × Prog F α) → Prog F (List (ι × α))
  | [] => pure []
  | r :: rs => do
    let a ← r.2
    let as ← inTurn rs
    pure ((r.1, a) :: as)

theorem value_inTurn_cons (r : ι × Prog F α) (rs : List (ι × Prog F α)) (dev : Device F)
    (h : Trace F) : (inTurn (r :: rs)).value dev h =
      (r.1, r.2.value dev h) :: (inTurn rs).value dev (h ++ r.2.trace dev h) := rfl

theorem trace_inTurn_cons (r : ι × Prog F α) (rs : List (ι × Prog F α)) (dev : Device F)
    (h : Trace F) : (inTurn (r :: rs)).trace dev h =
      r.2.trace dev h ++ (inTurn rs).trace dev (h ++ r.2.trace dev h) := by
  rw [inTurn, trace_bind, trace_bind, trace_pure, List.append_nil]

/-- A program that keeps to a part keeps to a larger one. -/
theorem Confined.mono {part part' : Part F} {p : Prog F α} (hp : Confined part p)
    (hreads : ∀ i, part.reads i → part'.reads i)
    (hwrites : ∀ o, part.writes o → part'.writes o) : Confined part' p := by
  have hhas : ∀ e, part.Has e → part'.Has e := by
    rintro (o | ⟨i, r⟩) he
    · exact hwrites o he
    · exact hreads i he
  exact ⟨hp.emits.mono hhas, fun dev dev' h h' hagree ↦ hp.agrees dev dev' h h'
    fun t ht i hi ↦ hagree t (fun e he ↦ hhas e (ht e he)) i (hreads i hi)⟩

end Prog

namespace Peripheral

open Prog

/-- The device minds its part, and nothing else. -/
def Minds (per : Peripheral F σ) (part : Part F) : Prop :=
  ∀ s e, ¬part.Has e → per.step s e = s

/-- The device answers the reads of its part. -/
def Attached (per : Peripheral F σ) (s₀ : σ) (part : Part F) (dev : Device F) : Prop :=
  ∀ h i, part.reads i → dev h i = per.device s₀ h i

variable {per : Peripheral F σ} {part : Part F} {s₀ : σ} {dev : Device F}

/-- On a bus every device answers the reads that are for it. -/
theorem attached_bus {per : ι → Peripheral F σ} {owner : F.In → ι} {k : ι}
    (howner : ∀ i, part.reads i → owner i = k) (s : ι → σ) :
    (per k).Attached (s k) part ((bus per owner).device s) := by
  intro h i hi
  have hseen : (bus per owner).after s h k = (per k).after (s k) h := after_bus s h k
  rw [device, device, ← hseen, bus]
  simp only [howner i hi]

/-- Exchanges outside the part do not move the device. -/
theorem Minds.after (hper : per.Minds part) {t : Trace F} (ht : ∀ e ∈ t, ¬part.Has e) (s : σ) :
    per.after s t = s := by
  induction t with
  | nil => rfl
  | cons e t ih =>
    rw [after_cons, hper s e (ht e List.mem_cons_self)]
    exact ih fun e' he' ↦ ht e' (List.mem_cons_of_mem _ he')

/-- **A program that reads nothing but the part** runs as it does on the device alone, when the
device is in the same state. -/
theorem Attached.confined (hdev : per.Attached s₀ part dev) {writes : F.Out → Prop} {p : Prog F α}
    (hp : Confined ⟨part.reads, writes⟩ p) {h h' : Trace F}
    (hstate : per.after s₀ h = per.after s₀ h') :
    p dev h = p (per.device s₀) h' := by
  refine hp.agrees _ _ _ _ fun t _ i hi ↦ ?_
  rw [hdev _ i hi, device, device, after_append, after_append, hstate]

/-- **A device and its programs are alone**, whatever programs for other devices come in between. -/
theorem Attached.alone [DecidableEq ι] (hdev : per.Attached s₀ part dev) (hper : per.Minds part)
    (k : ι) {writes : F.Out → Prop} {rs : List (ι × Prog F α)}
    (hmine : ∀ r ∈ rs, r.1 = k → Confined ⟨part.reads, writes⟩ r.2)
    (hothers : ∀ r ∈ rs, r.1 ≠ k → Emits (fun e ↦ ¬part.Has e) r.2) {h h' : Trace F}
    (hstate : per.after s₀ h = per.after s₀ h') :
    ((inTurn rs).value dev h).filter (·.1 = k) =
        (inTurn (rs.filter (·.1 = k))).value (per.device s₀) h' ∧
      per.after s₀ (h ++ (inTurn rs).trace dev h) =
        per.after s₀ (h' ++ (inTurn (rs.filter (·.1 = k))).trace (per.device s₀) h') := by
  induction rs generalizing h h' with
  | nil => exact ⟨rfl, by simpa [inTurn] using hstate⟩
  | cons r rs ih =>
    have hmine' : ∀ r ∈ rs, r.1 = k → Confined ⟨part.reads, writes⟩ r.2 := fun r' hr' ↦
      hmine r' (List.mem_cons_of_mem _ hr')
    have hothers' : ∀ r ∈ rs, r.1 ≠ k → Emits (fun e ↦ ¬part.Has e) r.2 := fun r' hr' ↦
      hothers r' (List.mem_cons_of_mem _ hr')
    rw [value_inTurn_cons, trace_inTurn_cons, ← List.append_assoc]
    by_cases hk : r.1 = k
    · have hrun := hdev.confined (hmine r List.mem_cons_self hk) hstate
      have hvalue : r.2.value dev h = r.2.value (per.device s₀) h' := congrArg Prod.fst hrun
      have htrace : r.2.trace dev h = r.2.trace (per.device s₀) h' := congrArg Prod.snd hrun
      have hnext : per.after s₀ (h ++ r.2.trace dev h) =
          per.after s₀ (h' ++ r.2.trace (per.device s₀) h') := by
        rw [after_append, after_append, hstate, htrace]
      obtain ⟨hvalues, hafter⟩ := ih hmine' hothers' hnext
      rw [List.filter_cons_of_pos (by simpa using hk), List.filter_cons_of_pos (by simpa using hk),
        value_inTurn_cons, trace_inTurn_cons, ← List.append_assoc, hvalues, hvalue]
      exact ⟨rfl, hafter⟩
    · have hnext : per.after s₀ (h ++ r.2.trace dev h) = per.after s₀ h' := by
        rw [after_append, hper.after (hothers r List.mem_cons_self hk dev h), hstate]
      obtain ⟨hvalues, hafter⟩ := ih hmine' hothers' hnext
      rw [List.filter_cons_of_neg (by simpa using hk), List.filter_cons_of_neg (by simpa using hk)]
      exact ⟨hvalues, hafter⟩

end Peripheral
end Driver
