import Mathlib.Algebra.Ring.Int.Defs
import Aetherion.Storage.Detection

/-!
# What the drivers report

Both drivers count a disk when they have set it up, and do not look at what `disk_register` returns.
So the sum of their counts is the number of disks they have set up, and the table holds the first
eight of them: the two numbers agree exactly when there are no more than eight
(`counts_agree_iff`).
-/

set_option autoImplicit false

namespace Aetherion.Storage

open Driver Driver.Prog Ata Ahci

/-- What an answer of the heap says about the disks: a block for a `disk_t` is one more, and an
`ata_device_t` that cannot be had is one less, because its disk is given up. -/
def diskWeight : Exchange → ℤ
  | .inp (.malloc size) (some _) => if size = sizeofDisk then 1 else 0
  | .inp (.malloc size) none => if size = sizeofAtaDevice then -1 else 0
  | _ => 0

/-- How many disks the drivers have set up: each has a block for its `disk_t`, and an ATA disk one
for its `ata_device_t`. -/
def disksSetUp (t : Trace machine) : ℤ := (t.map diskWeight).sum

theorem disksSetUp_append (t u : Trace machine) :
    disksSetUp (t ++ u) = disksSetUp t + disksSetUp u := by
  rw [disksSetUp, List.map_append, List.sum_append]
  rfl

theorem diskWeight_of_quiet {e : Exchange} (he : Quiet e) : diskWeight e = 0 := by
  match e, he with
  | .out _, _ => rfl
  | .inp (.inb _) _, _ => rfl
  | .inp (.inw _) _, _ => rfl
  | .inp (.inl _) _, _ => rfl
  | .inp (.mmio _) _, _ => rfl
  | .inp (.load32 _) _, _ => rfl
  | .inp (.dma _) _, _ => rfl

/-- The count of disks is `n`, `base` of them from before, and the table has as many of the others
as it can hold. -/
structure Counted (base : ℤ) (g : Registry) (n : ℤ) (h : Trace machine) : Prop where
  setUp : disksSetUp h = base + n
  nonneg : 0 ≤ n
  count : (g.count : ℤ) = min (maxDisks : ℤ) n

variable {dev : Device machine} {base n : ℤ} {g : Registry}

theorem unheeding_counted : Unheeding (Counted base g n) := by
  intro h e he hcounted
  refine ⟨?_, hcounted.nonneg, hcounted.count⟩
  rw [disksSetUp_append, hcounted.setUp]
  simp [disksSetUp, diskWeight_of_quiet he]

/-- A disk that has been set up comes into the table, if there is room. -/
theorem Counted.add {h : Trace machine} (hcounted : Counted base g n h) {u : Trace machine}
    (hu : disksSetUp u = 1) (d : Disk) : Counted base (g.add d) (n + 1) (h ++ u) where
  setUp := by rw [disksSetUp_append, hcounted.setUp, hu, add_assoc]
  nonneg := by have := hcounted.nonneg; omega
  count := by
    have hnonneg := hcounted.nonneg
    have hcount := hcounted.count
    rw [Registry.count_add]
    omega

/-- What has not been set up leaves the table as it is. -/
theorem Counted.pass {h : Trace machine} (hcounted : Counted base g n h) {u : Trace machine}
    (hu : disksSetUp u = 0) : Counted base g n (h ++ u) where
  setUp := by rw [disksSetUp_append, hcounted.setUp, hu, add_zero]
  nonneg := hcounted.nonneg
  count := hcounted.count

/-- A program that asks for a block for a disk, and ends with a disk exactly if it has all it
needs. -/
theorem triple_of_setUp {p : Kernel (Option Disk)}
    (hp : ∀ h, disksSetUp (p.trace dev h) = if (p.value dev h).isSome then 1 else 0) :
    Triple dev (Counted base g n) p (AfterProbe (Counted base) g n) := by
  intro h hcounted
  have hu := hp h
  cases hv : p.value dev h with
  | none => exact hcounted.pass (by rw [hu, hv]; rfl)
  | some d => exact hcounted.add (by rw [hu, hv]; rfl) d

/-! ## The probes -/

theorem disksSetUp_of_quiet {α : Type} {p : Kernel α} (hp : Emits Quiet p) (h : Trace machine) :
    disksSetUp (p.trace dev h) = 0 := by
  have hzero (t : Trace machine) (ht : ∀ e ∈ t, Quiet e) : disksSetUp t = 0 := by
    induction t with
    | nil => rfl
    | cons e t ih =>
      rw [disksSetUp, List.map_cons, List.sum_cons, diskWeight_of_quiet (ht e (by simp)), zero_add]
      exact ih fun e he ↦ ht e (List.mem_cons_of_mem _ he)
  exact hzero _ (hp dev h)

/-- Programs that begin without asking for memory. -/
theorem disksSetUp_then {α : Type} {p : Kernel α} (hp : Emits Quiet p)
    {f : α → Kernel (Option Disk)}
    (hf : ∀ a h, disksSetUp ((f a).trace dev h) = if ((f a).value dev h).isSome then 1 else 0)
    (h : Trace machine) : disksSetUp ((p >>= f).trace dev h) =
      if ((p >>= f).value dev h).isSome then 1 else 0 := by
  rw [trace_bind, value_bind, disksSetUp_append, disksSetUp_of_quiet hp, zero_add, hf]

theorem trace_malloc {size : UInt64} {r : Option {b : Block // size.toNat ≤ b.size}}
    {h : Trace machine} (hr : (malloc size).value dev h = r) :
    (malloc size).trace dev h = [.inp (.malloc size) r] := by
  rw [← hr]
  rfl

theorem disksSetUp_ataMakeDisk (ch drive : ℕ) (identify : ℕ → UInt16) (h : Trace machine) :
    disksSetUp ((ataMakeDisk ch drive identify).trace dev h) =
      if ((ataMakeDisk ch drive identify).value dev h).isSome then 1 else 0 := by
  rw [ataMakeDisk]
  split
  · rfl
  split
  · rfl
  rw [value_bind, trace_bind, disksSetUp_append]
  cases hdisk : (malloc sizeofDisk).value dev h with
  | none =>
    rw [trace_malloc hdisk]
    rfl
  | some disk =>
    rw [trace_malloc hdisk, value_bind, trace_bind, disksSetUp_append]
    generalize h ++ [.inp (.malloc sizeofDisk) (some disk)] = h'
    cases hdevice : (malloc sizeofAtaDevice).value dev h' with
    | none =>
      rw [trace_malloc hdevice]
      rfl
    | some device =>
      rw [trace_malloc hdevice]
      rfl

theorem disksSetUp_ataProbe (ch drive : ℕ) (h : Trace machine) :
    disksSetUp ((ataProbe ch drive).trace dev h) =
      if ((ataProbe ch drive).value dev h).isSome then 1 else 0 := by
  refine disksSetUp_then (quiet_ataIdentify _ _) (fun o h ↦ ?_) h
  cases o with
  | none => rfl
  | some identify => exact disksSetUp_ataMakeDisk ch drive identify h

theorem disksSetUp_ahciProbe (hba : Hba) (i : Fin 32) (identify : UInt64) (h : Trace machine) :
    disksSetUp ((ahciProbe hba i identify).trace dev h) =
      if ((ahciProbe hba i identify).value dev h).isSome then 1 else 0 := by
  refine disksSetUp_then (quiet_ahciPortStart _ _) (fun started h ↦ ?_) h
  split
  · rfl
  refine disksSetUp_then (quiet_ahciIdentify _ _ _) (fun o h ↦ ?_) h
  cases o with
  | none => rfl
  | some words =>
    dsimp only
    split
    · rfl
    rw [value_bind, trace_bind, disksSetUp_append]
    cases hdisk : (malloc sizeofDisk).value dev h with
    | none =>
      rw [trace_malloc hdisk]
      rfl
    | some disk =>
      rw [trace_malloc hdisk]
      rfl

/-! ## The counts -/

/-- Both counts, and the table, after detection. -/
theorem counted_findDisks (identify : UInt64) (h : Trace machine) :
    Counted (disksSetUp h) ((findDisks identify).value dev h).registry
      (((findDisks identify).value dev h).ataFound + ((findDisks identify).value dev h).ahciFound)
      (h ++ (findDisks identify).trace dev h) := by
  refine triple_findDisks (A := fun _ g n ↦ Counted (disksSetUp h) g n)
    (B := fun m _ _ g n ↦ Counted (disksSetUp h) g (m + n))
    (fun _ _ _ ↦ unheeding_counted.indifferent) (fun _ _ _ _ _ ↦ unheeding_counted.indifferent)
    (fun ch drive g n _ _ ↦ triple_of_setUp (disksSetUp_ataProbe ch drive)) ?_ ?_ ?_ ?_ h ?_
  · intro g n h' hcounted abar
    rwa [add_zero]
  · exact fun _ _ _ _ _ _ hcounted ↦ hcounted
  · exact fun _ _ _ _ ↦ triple_emit fun h' ↦ unheeding_counted h' _ trivial
  · intro m hba i g n _
    refine (triple_of_setUp (disksSetUp_ahciProbe hba i identify)).mono (fun h hh ↦ hh)
      fun o h' hprobed ↦ ?_
    cases o with
    | none => exact hprobed
    | some d =>
      change Counted _ _ (m + n + 1) h' at hprobed
      rwa [add_assoc] at hprobed
  · exact ⟨(add_zero _).symm, Int.le_refl 0, rfl⟩

/-- **The drivers report what the table holds** exactly when at most eight disks have been set
up. -/
theorem counts_agree_iff (identify : UInt64) (h : Trace machine) :
    ((findDisks identify).value dev h).ataFound + ((findDisks identify).value dev h).ahciFound =
        ((findDisks identify).value dev h).registry.count ↔
      disksSetUp ((findDisks identify).trace dev h) ≤ maxDisks := by
  have hcounted := @counted_findDisks dev identify h
  have hset := hcounted.setUp
  rw [disksSetUp_append] at hset
  have hcount := hcounted.count
  omega

/-- A machine with four ATA drives and, behind its AHCI controller, a drive at every port.  Where a
register of a port is can be told from the last seven bits of its address. -/
def fullMachine : Device machine := fun h i ↦
  match i with
  | .mmio a =>
    let reg := a &&& 0x7F
    if reg = 0x24 then (0x00000101 : UInt32)
    else if reg = 0x18 then (0xC000 : UInt32)
    else if reg = 0x0C then (0xFFFFFFFF : UInt32)
    else (0 : UInt32)
  | .dma _ => fun _ ↦ (1 : UInt16)
  | i => idleMachine h i

/-- The drivers report 36 disks, eight of which can be reached. -/
theorem full_machine_counts :
    let k := (findDisks 0x2000).value fullMachine []
    k.ataFound + k.ahciFound ≠ k.registry.count := by
  decide +kernel

end Aetherion.Storage
