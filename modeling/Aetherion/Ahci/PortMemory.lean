import Mathlib.Data.Fintype.Card
import Aetherion.Ahci.Ports

/-!
# The memory of the ports

For every port with a drive, detection asks for a command list, a received-FIS area and a command
table, whatever the drive does then.  So the calls of `ahci_alloc_aligned` are the same three for
each of these ports, and far from enough to fill 64 bits (`exactPtr_portsCalls_lt`): all the blocks
of all the ports are aligned, above `0x1000000`, and apart from each other
(`allocated_blocks_apart`).
-/

set_option autoImplicit false

namespace Aetherion.Ahci

open Driver Driver.Prog Storage

/-! ## The calls for a port -/

theorem pow_1024 : ∃ k, UInt64.toNat 1024 = 2 ^ k := ⟨10, rfl⟩

theorem pow_256 : ∃ k, UInt64.toNat 256 = 2 ^ k := ⟨8, rfl⟩

theorem pow_4096 : ∃ k, UInt64.toNat 4096 = 2 ^ k := ⟨12, rfl⟩

/-- The calls for some ports, one port after the other. -/
def portsCalls (ports : List (Fin 32)) : List AllocCall :=
  ports.flatMap fun _ ↦ [⟨1024, 1024, pow_1024⟩, ⟨256, 256, pow_256⟩, ⟨4096, 4096, pow_4096⟩]

/-- The memory of a port, in the order in which it is asked for. -/
def AhciPort.bases (port : AhciPort) : List UInt64 :=
  [port.cmdListBase, port.fisBase, port.cmdTableBase]

theorem portsCalls_concat (ports : List (Fin 32)) (j : Fin 32) :
    portsCalls (ports ++ [j]) = portsCalls ports ++ portsCalls [j] := List.flatMap_append ..

/-- **All ports together** do not come near the end of the address space. -/
theorem exactPtr_portsCalls_lt {ports : List (Fin 32)} (h : ports.Nodup) :
    exactPtr 0x1000000 (portsCalls ports) < 2 ^ 64 := by
  have hlen : ports.length ≤ 32 := by
    have hcard := List.Nodup.length_le_card h
    rwa [Fintype.card_fin] at hcard
  have hcount : (portsCalls ports).length = ports.length * 3 := by
    rw [portsCalls, List.length_flatMap, List.map_const', List.sum_replicate_nat]
    rfl
  have hbound : ∀ r ∈ (portsCalls ports).map AllocCall.request, r.size + r.align ≤ 8192 := by
    intro r hr
    obtain ⟨c, hc, rfl⟩ := List.mem_map.mp hr
    obtain ⟨j, -, hc⟩ := List.mem_flatMap.mp hc
    simp only [List.mem_cons, List.not_mem_nil, or_false] at hc
    rcases hc with rfl | rfl | rfl <;> decide
  have hle := Bump.finish_le (UInt64.toNat 0x1000000) hbound
  rw [List.length_map, hcount, show UInt64.toNat 0x1000000 = 0x1000000 from rfl] at hle
  exact hle.trans_lt (by omega)

/-! ## Detection -/

/-- What detection has asked for when it reaches port `i`: memory for these ports. -/
structure Given (i : ℕ) (s : AhciState) (ports : List (Fin 32)) : Prop where
  lt : ∀ j ∈ ports, j.val < i
  nodup : ports.Nodup
  ptr : s.memAllocPtr = allocPtr 0x1000000 (portsCalls ports)
  bases : ports.flatMap (fun j ↦ (s.hba.port j).bases) =
    (allocAll 0x1000000 (portsCalls ports)).map Allocated.addr

variable {i : ℕ} {s : AhciState} {g : Registry} {ports : List (Fin 32)}

theorem Given.skip (h : Given i s ports) : Given (i + 1) s ports where
  lt j hj := (h.lt j hj).trans (Nat.lt_succ_self i)
  nodup := h.nodup
  ptr := h.ptr
  bases := h.bases

/-- The memory of the ports before port `j` does not depend on that port. -/
theorem Given.bases_setPort {j : Fin 32} (h : Given j.val s ports) (port : AhciPort) :
    ports.flatMap (fun k ↦ ((s.setPort j port).hba.port k).bases) =
      ports.flatMap fun k ↦ (s.hba.port k).bases := by
  refine List.flatMap_congr fun k hk ↦ ?_
  have hlt := h.lt k hk
  have hne : j ≠ k := by rintro rfl; omega
  rw [AhciState.setPort_port, if_neg hne]

theorem Given.setPort {j : Fin 32} (h : Given j.val s ports) (port : AhciPort) :
    Given j.val (s.setPort j port) ports where
  lt := h.lt
  nodup := h.nodup
  ptr := h.ptr
  bases := (h.bases_setPort port).trans h.bases

/-- **Memory for one more port.** -/
theorem Given.alloc {j : Fin 32} (h : Given j.val s ports) (port : AhciPort) :
    Given (j.val + 1) { s.setPort j (allocPort port s.memAllocPtr).1 with
      memAllocPtr := (allocPort port s.memAllocPtr).2 } (ports ++ [j]) where
  lt k hk := by
    rcases List.mem_append.mp hk with hk | hk
    · exact (h.lt k hk).trans (Nat.lt_succ_self _)
    · rw [List.mem_singleton.mp hk]
      exact Nat.lt_succ_self _
  nodup := by
    rw [← List.concat_eq_append]
    exact List.Nodup.concat (fun hj ↦ Nat.lt_irrefl _ (h.lt j hj)) h.nodup
  ptr := by
    rw [portsCalls_concat, allocPtr_append, ← h.ptr]
    rfl
  bases := by
    change (ports ++ [j]).flatMap (fun k ↦
      ((s.setPort j (allocPort port s.memAllocPtr).1).hba.port k).bases) = _
    rw [List.flatMap_append, h.bases_setPort, h.bases, portsCalls_concat, allocAll_append,
      List.map_append, ← h.ptr, List.flatMap_singleton, AhciState.setPort_port, if_pos rfl]
    rfl

/-- **One port.** -/
theorem given_ahciDetectPort {dev : Device machine} {j : Fin 32} {found : ℤ}
    (h : Given j.val s ports) (identify : UInt64) :
    Returns dev (fun r ↦ ∃ ports, Given (j.val + 1) r.1 ports)
      (ahciDetectPort identify j (s, g, found)) := by
  have hnumbered := h.setPort (s.numberedPort j)
  refine .ite (fun _ ↦ returns_pure ⟨ports, h.skip⟩) fun _ ↦ returns_then fun sig ↦
    .ite (fun _ ↦ returns_then fun _ ↦ returns_pure ⟨ports, hnumbered.skip⟩) fun _ ↦ ?_
  have halloc := hnumbered.alloc (s.numberedPort j)
  -- the memory stays with the port, whatever becomes of its drive
  refine returns_then fun o ↦ ?_
  cases o with
  | none => exact returns_pure ⟨_, halloc⟩
  | some d => exact returns_then fun r ↦ returns_pure ⟨_, halloc⟩

/-- **All ports.** -/
theorem given_ahciDetectPorts {dev : Device machine} (hptr : s.memAllocPtr = 0x1000000)
    (g : Registry) (identify : UInt64) :
    Returns dev (fun r ↦ ∃ ports, Given 32 r.2.1 ports) (ahciDetectPorts s g identify) := by
  have hstart : Given 0 s [] := ⟨nofun, .nil, hptr, rfl⟩
  refine (returns_forEach (fun i (s : AhciState × Registry × ℤ) ↦ ∃ ports, Given i s.1 ports)
    (fun i s _ hi hs ↦ ?_) ⟨[], hstart⟩).bind fun r hr ↦ returns_pure hr
  obtain ⟨ports, hs⟩ := hs
  have hval : (Fin.ofNat 32 i).val = i := Nat.mod_eq_of_lt (by omega)
  rw [← hval] at hs
  have hport : Returns dev (fun r ↦ ∃ ports, Given ((Fin.ofNat 32 i).val + 1) r.1 ports)
      (ahciDetectPort identify (Fin.ofNat 32 i) s) := given_ahciDetectPort hs identify
  rwa [hval] at hport

/-- **Blocks of the allocator are aligned, above `0x1000000`, and apart from each other**, after any
calls for which the exact pointer stays below `2 ^ 64`.  Those of detection, whatever ports there
are, are such calls. -/
theorem allocated_blocks_apart :
    (∀ calls : List AllocCall, exactPtr 0x1000000 calls < 2 ^ 64 →
      (allocAll 0x1000000 calls).map Allocated.call = calls ∧
      (∀ a ∈ allocAll 0x1000000 calls,
        a.addr.toNat % a.call.align.toNat = 0 ∧ 0x1000000 ≤ a.addr.toNat) ∧
      (allocAll 0x1000000 calls).Pairwise fun a b ↦
        Mem.Apart a.addr a.call.size.toNat b.addr b.call.size.toNat) ∧
    ∀ (dev : Device machine) (h : Trace machine) (s : AhciState) (g : Registry) (identify : UInt64),
      s.memAllocPtr = 0x1000000 → ∃ ports,
        Given 32 ((ahciDetectPorts s g identify).value dev h).2.1 ports ∧
          exactPtr 0x1000000 (portsCalls ports) < 2 ^ 64 := by
  refine ⟨fun calls hcalls ↦
    ⟨map_call_allocAll .., fun a ha ↦ ?_, allocAll_pairwise hcalls⟩, ?_⟩
  · obtain ⟨hdvd, hlow, -⟩ := dvd_addr hcalls ha
    exact ⟨Nat.mod_eq_zero_of_dvd hdvd, hlow⟩
  · intro dev h s g identify hptr
    have hall : Returns dev (fun r ↦ ∃ ports, Given 32 r.2.1 ports)
      (ahciDetectPorts s g identify) := given_ahciDetectPorts hptr g identify
    obtain ⟨ports, hgiven⟩ := hall h
    exact ⟨ports, hgiven, exactPtr_portsCalls_lt hgiven.nodup⟩

/-- The blocks of two ports, and detection on a machine where nothing answers. -/
theorem allocated_blocks_apart_two :
    ((allocAll 0x1000000 (portsCalls [0, 3])).Pairwise fun a b ↦
      Mem.Apart a.addr a.call.size.toNat b.addr b.call.size.toNat) ∧
    ∃ ports, Given 32 ((ahciDetectPorts AhciState.initial .empty 0).value
      (steadyMachine 0 0 0) []).2.1 ports :=
  ⟨(allocated_blocks_apart.1 _ (exactPtr_portsCalls_lt (by decide))).2.2,
    (allocated_blocks_apart.2 (steadyMachine 0 0 0) [] .initial .empty 0 rfl).imp fun _ h ↦ h.1⟩

end Aetherion.Ahci
