import Aetherion.Base.Ledger
import Aetherion.Ata.ReadAfterWrite
import Aetherion.Shell.ReadOnly
import Aetherion.Shell.Working
import Aetherion.Storage.Detection
import Aetherion.Storage.Slaves

/-!
# What the kernel has from the heap

The drivers ask the heap for a block for every disk that they set up, and `read` for one to read
into.  Written down in a ledger (`Ledger`), in the order in which it happens, all of it is in order
(`kernel_keeps_heap`): on every machine and whatever is typed, no block is freed twice, or without
having been handed out, and no device is waited for to fill one that has been freed.

And the shell gives back what it takes: whatever is typed, the blocks that are out are those that
were out at the first prompt, and these are the disks of the table, and those for which the table
had no place.
-/

set_option autoImplicit false

namespace Aetherion.Shell

open Driver Driver.Prog Storage Ata Ahci

/-! ## The ledger -/

/-- What an exchange is to the heap.  `identify` is no block of it, but a buffer of
`ahci_detect_ports`. -/
def heapActions (identify : UInt64) : Exchange → List (Ledger.Action UInt64)
  | .inp (.malloc _) (some block) => [.acquire block.1.addr]
  | .out (.free a) => if a = 0 then [] else [.release a]
  | .inp (.dma a) _ => if a = identify then [] else [.use a]
  | _ => []

/-- What has been done with the heap. -/
def heapLog (identify : UInt64) (t : Trace machine) : List (Ledger.Action UInt64) :=
  t.flatMap (heapActions identify)

/-- These blocks are out after the history, and all that was done with the heap is in order. -/
def Live (identify : UInt64) (live : List UInt64) (h : Trace machine) : Prop :=
  Ledger.run [] (heapLog identify h) = some live

variable {identify : UInt64} {live : List UInt64} {dev : Device machine} {h : Trace machine}

theorem live_nil : Live identify [] [] := rfl

/-- One exchange more. -/
theorem Live.concat (hlive : Live identify live h) {e : Exchange} {live' : List UInt64}
    (he : Ledger.run live (heapActions identify e) = some live') :
    Live identify live' (h ++ [e]) := by
  rw [Live, heapLog, List.flatMap_append, List.flatMap_singleton]
  exact (Ledger.run_append_of_eq hlive).trans he

theorem heapActions_heapless {e : Exchange} (he : Heapless e) : heapActions identify e = [] := by
  rcases e with o | ⟨i, r⟩
  · cases o with
    | free a => exact False.elim he
    | _ => rfl
  · cases i with
    | malloc size => exact False.elim he
    | dma a => exact False.elim he
    | _ => rfl

theorem Live.heapless (hlive : Live identify live h) {e : Exchange} (he : Heapless e) :
    Live identify live (h ++ [e]) := hlive.concat (by rw [heapActions_heapless he]; rfl)

/-! ## What is done with the heap -/

/-- Most programs do nothing with it. -/
theorem live_harmless {α : Type} {p : Kernel α} (hp : Emits Harmless p) :
    Triple dev (Live identify live) p (fun _ ↦ Live identify live) :=
  triple_of_emits hp fun _ _ he hlive ↦ hlive.heapless he.2

theorem live_plain {α : Type} {p : Kernel α} (hp : Emits Plain p) :
    Triple dev (Live identify live) p (fun _ ↦ Live identify live) :=
  live_harmless (emits_harmless hp)

theorem live_malloc (size : UInt64) :
    Triple dev (Live identify live) (malloc size) fun r ↦
      Live identify (r.elim live fun block ↦ block.1.addr :: live) := by
  have hany (r : Option {b : Block // size.toNat ≤ b.size}) :
      Ledger.run live (heapActions identify (.inp (.malloc size) r)) =
        some (r.elim live fun block ↦ block.1.addr :: live) := by
    cases r <;> rfl
  exact fun h hlive ↦ hlive.concat (hany _)

/-- The block that was handed out last is given back. -/
theorem live_free {a : UInt64} (ha : a ≠ 0) :
    Triple dev (Live identify (a :: live)) (free a) (fun _ ↦ Live identify live) := by
  refine triple_emit fun h hlive ↦ hlive.concat ?_
  rw [heapActions, if_neg ha, Ledger.run_singleton]
  exact Ledger.step_release_cons a live

theorem live_free_null : Triple dev (Live identify live) (free 0) (fun _ ↦ Live identify live) :=
  triple_emit fun _ hlive ↦ hlive.concat rfl

/-- A buffer is looked into that is `identify`, or is out. -/
theorem live_dma {a : UInt64} (ha : a = identify ∨ a ∈ live) :
    Triple dev (Live identify live) (dma a) (fun _ ↦ Live identify live) := by
  refine triple_ask fun h hlive ↦ hlive.concat ?_
  rw [heapActions]
  split
  · rfl
  · rw [Ledger.run_singleton]
    exact if_pos (ha.resolve_left ‹_›)

/-! ## Disks -/

/-- The blocks of a disk: its `disk_t`, and the `ata_device_t` of an ATA disk. -/
def blocksOf (d : Disk) : ℕ :=
  match d.ops with
  | some (.ata _) => 2
  | some (.ahci _) => 1
  | none => 0

/-- The blocks of all disks of the table. -/
def blocksIn (g : Registry) : ℕ :=
  ((List.range g.count).map fun i ↦ (g.get? i).elim 0 blocksOf).sum

theorem blocksIn_add {g : Registry} (hroom : g.count < maxDisks) (d : Disk) :
    blocksIn (g.add d) = blocksIn g + blocksOf d := by
  have hcount : (g.add d).count = g.count + 1 := by
    rw [Registry.count_add]
    omega
  have hold : ∀ i ∈ List.range g.count, ((g.add d).get? i).elim 0 blocksOf =
      (g.get? i).elim 0 blocksOf := by
    intro i hi
    have hlt := List.mem_range.mp hi
    rw [Registry.get?_add, if_neg (by omega)]
  rw [blocksIn, hcount, List.range_succ, List.map_append, List.sum_append, List.map_singleton,
    List.sum_singleton, List.map_congr_left hold, Registry.get?_add, if_pos ⟨hroom, rfl⟩]
  rfl

/-- The blocks that are out are those of the disks in the table, as long as it has room, and there
are `bound` of them at most. -/
structure Accounted (identify : UInt64) (bound : ℕ) (g : Registry) (live : List UInt64)
    (h : Trace machine) : Prop where
  out : Live identify live h
  le : live.length ≤ bound
  ge : blocksIn g ≤ live.length
  eq : g.count < maxDisks → live.length = blocksIn g

/-- The same of some list of blocks. -/
def IsAccounted (identify : UInt64) (bound : ℕ) (g : Registry) (h : Trace machine) : Prop :=
  ∃ live, Accounted identify bound g live h

theorem Accounted.mono {bound bound' : ℕ} {g : Registry} (h' : Accounted identify bound g live h)
    (hle : bound ≤ bound') : Accounted identify bound' g live h :=
  ⟨h'.out, h'.le.trans hle, h'.ge, h'.eq⟩

/-- A disk that has been set up, with its blocks. -/
theorem Accounted.add {bound bound' : ℕ} {g : Registry} (hg : Accounted identify bound g live h)
    {d : Disk} {new : List UInt64} {h' : Trace machine} (hlive : Live identify (new ++ live) h')
    (hnew : new.length = blocksOf d) (hbound : bound + new.length ≤ bound') :
    Accounted identify bound' (g.add d) (new ++ live) h' := by
  have hle := hg.le
  have hge := hg.ge
  refine ⟨hlive, by rw [List.length_append]; omega, ?_, fun hroom ↦ ?_⟩
  · by_cases hroom : g.count < maxDisks
    · rw [blocksIn_add hroom, List.length_append]
      omega
    · rw [Registry.add, dif_pos (not_lt.mp hroom), List.length_append]
      omega
  · have hroom' : g.count < maxDisks := by
      rw [Registry.count_add] at hroom
      omega
    rw [blocksIn_add hroom', List.length_append, hg.eq hroom']
    omega

theorem IsAccounted.heapless {bound : ℕ} {g : Registry} (hg : IsAccounted identify bound g h)
    {e : Exchange} (he : Heapless e) : IsAccounted identify bound g (h ++ [e]) := by
  obtain ⟨live, hlive⟩ := hg
  exact ⟨live, hlive.out.heapless he, hlive.le, hlive.ge, hlive.eq⟩

theorem indifferent_isAccounted (bound : ℕ) (g : Registry) :
    Indifferent (IsAccounted identify bound g) := by
  intro h e he hg
  refine hg.heapless ?_
  cases he <;> trivial

/-! ## The probes -/

/-- What a probe has from the heap afterwards: the blocks of the disk that it has found. -/
def Took (identify : UInt64) (live : List UInt64) (o : Option Disk) (h : Trace machine) : Prop :=
  ∃ new, Live identify (new ++ live) h ∧ new.length = o.elim 0 blocksOf

theorem took_none (hlive : Live identify live h) : Took identify live none h := ⟨[], hlive, rfl⟩

theorem took_ataProbe (ch drive : ℕ) :
    Triple dev (Live identify live) (ataProbe ch drive) (Took identify live) := by
  have hnone : Triple dev (Live identify live) (pure none) (Took identify live) :=
    triple_pure fun _ ↦ took_none
  refine (live_plain (plain_ataIdentify _ _)).bind fun o ↦ ?_
  cases o with
  | none => exact hnone
  | some words =>
    refine .ite (fun _ ↦ hnone) fun _ ↦ .ite (fun _ ↦ hnone) fun _ ↦ ?_
    refine (live_malloc _).bind fun disk ↦ ?_
    cases disk with
    | none => exact hnone
    | some disk =>
      refine (live_malloc _).bind fun device ↦ ?_
      cases device with
      | none => exact (live_free disk.1.addr_ne_zero).bind fun _ ↦ hnone
      | some device => exact triple_pure fun h hlive ↦ ⟨[_, _], hlive, rfl⟩

theorem took_ahciProbe (hba : Hba) (i : Fin 32) :
    Triple dev (Live identify live) (ahciProbe hba i identify) (Took identify live) := by
  have hnone : Triple dev (Live identify live) (pure none) (Took identify live) :=
    triple_pure fun _ ↦ took_none
  refine (live_harmless (harmless_ahciPortStart _ _)).bind fun started ↦
    .ite (fun _ ↦ (live_plain (plain_print _)).bind fun _ ↦ hnone) fun _ ↦ ?_
  refine Triple.bind (Q := fun _ ↦ Live identify live) ?_ fun o ↦ ?_
  · refine (live_harmless (harmless_ahciExecCmd _ _ _ _ _ _)).bind fun r ↦
      .ite (fun _ ↦ triple_pure fun _ ↦ id) fun _ ↦ ?_
    exact (live_dma (.inl rfl)).bind fun _ ↦ triple_pure fun _ ↦ id
  cases o with
  | none => exact (live_plain (plain_print _)).bind fun _ ↦ hnone
  | some words =>
    refine .ite (fun _ ↦ hnone) fun _ ↦ (live_malloc _).bind fun disk ↦ ?_
    cases disk with
    | none => exact hnone
    | some disk => exact triple_pure fun h hlive ↦ ⟨[_], hlive, rfl⟩

/-- **A probe** for a disk of `n` blocks. -/
theorem accounted_probe {p : Kernel (Option Disk)} {n bound bound' : ℕ} {g : Registry} {found : ℤ}
    (hp : ∀ live, Triple dev (Live identify live) p (Took identify live))
    (hblocks : Returns dev (fun o ↦ ∀ d, o = some d → blocksOf d = n) p)
    (hbound : bound + n ≤ bound') :
    Triple dev (IsAccounted identify bound g) p
      (AfterProbe (fun g _ ↦ IsAccounted identify bound' g) g found) := by
  rintro h ⟨live, hg⟩
  obtain ⟨new, hlive, hnew⟩ := hp live h hg.out
  have hn := hblocks h
  cases hv : p.value dev h with
  | none =>
    rw [hv] at hnew
    obtain rfl := List.eq_nil_of_length_eq_zero hnew
    exact ⟨live, hlive, by have hle := hg.le; omega, hg.ge, hg.eq⟩
  | some d =>
    rw [hv] at hnew hn
    have hd : new.length = n := hnew.trans (hn d rfl)
    exact ⟨new ++ live, hg.add hlive hnew (by omega)⟩

/-- **After detection**: four drives with two blocks each, and 32 ports with one. -/
theorem accounted_findDisks :
    Triple dev (Live identify []) (findDisks identify)
      (fun k ↦ IsAccounted identify 40 k.registry) := by
  refine (triple_findDisks (A := fun k g _ ↦ IsAccounted identify (2 * k) g)
    (B := fun _ _ i g _ ↦ IsAccounted identify (8 + i) g)
    (fun k g _ ↦ indifferent_isAccounted _ g) (fun _ _ i g _ ↦ indifferent_isAccounted _ g) ?_
    (fun _ _ _ hh _ ↦ hh) ?_ ?_ ?_).mono (fun h hlive ↦ ⟨[], hlive, le_rfl, le_rfl, fun _ ↦ rfl⟩)
    fun _ _ hh ↦ hh
  · intro ch drive g found _ _
    refine accounted_probe (n := 2) (fun live ↦ took_ataProbe ch drive)
      ((returns_ataProbe ch drive).mono fun o ho d hd ↦ ?_) (by omega)
    obtain ⟨words, rfl⟩ := ho d hd
    rfl
  · rintro _ _ i g _ h ⟨live, hg⟩
    exact ⟨live, hg.mono (by omega)⟩
  · exact fun _ _ _ _ ↦ triple_emit fun h hg ↦ hg.heapless trivial
  · intro _ hba i g found _
    refine accounted_probe (n := 1) (fun live ↦ took_ahciProbe hba i)
      ((returns_ahciProbe hba i identify).mono fun o ho d hd ↦ ?_) (by omega)
    obtain ⟨words, rfl⟩ := ho d hd
    rfl

/-! ## The start of the kernel -/

/-- What is out when the kernel has come to its first prompt, or has stopped before. -/
def AtPrompt (identify : UInt64) (o : Option System) (h : Trace machine) : Prop :=
  ∃ live, Live identify live h ∧ live.length ≤ 40 ∧ ∀ sys ∈ o,
    blocksIn sys.disks ≤ live.length ∧
      (sys.disks.count < maxDisks → live.length = blocksIn sys.disks)

theorem atPrompt_none (hlive : Live identify live h) (hle : live.length ≤ 40) :
    AtPrompt identify none h :=
  ⟨live, hlive, hle, fun _ hsys ↦ absurd hsys (Option.not_mem_none _)⟩

theorem atPrompt_kernelBoot (n depth : ℕ) :
    Triple dev (Live identify []) (kernelBoot n depth identify).run (AtPrompt identify) := by
  refine triple_kernelBoot accounted_findDisks (fun _ _ he hlive ↦ hlive.heapless he.1.2)
    (fun _ _ _ he hg ↦ hg.heapless he.1.2) (fun _ hlive ↦ atPrompt_none hlive (Nat.zero_le 40))
    (fun k h ↦ ?_) (fun k pci h ↦ ?_) n depth
  · rintro ⟨live, hg⟩
    exact atPrompt_none hg.out hg.le
  · rintro ⟨live, hg⟩
    refine ⟨live, hg.out, hg.le, ?_⟩
    rintro _ ⟨⟩
    exact ⟨hg.ge, hg.eq⟩

/-! ## The shell -/

/-- A read of a disk, into a block that is out. -/
theorem live_diskRead {d : Disk} (hd : Detected d) (hba : Hba) (lba : UInt64) (count : UInt32)
    (b : Buffer) (hb : b.addr ∈ live) :
    Triple dev (Live identify live) (diskRead hba (some d) lba count b)
      (fun _ ↦ Live identify live) := by
  cases hd with
  | ata ch drive words =>
    exact (live_plain (plain_ataPioRead _ lba count b.words _)).bind fun _ ↦
      triple_pure fun _ ↦ id
  | ahci i words =>
    exact (live_harmless (harmless_ahciExecCmd _ _ _ _ _ _)).bind fun _ ↦
      (live_dma (.inr hb)).bind fun _ ↦ triple_pure fun _ ↦ id

theorem live_prepareRead (g : Registry) (line : List UInt8) :
    Triple dev (Live identify live) (prepareRead g line) fun o ↦
      Live identify (o.elim live fun call ↦ call.block.addr :: live) := by
  have hnone : Triple dev (Live identify live) (pure none) fun (o : Option ReadCall) ↦
      Live identify (o.elim live fun call ↦ call.block.addr :: live) := triple_pure fun _ ↦ id
  rw [prepareRead]
  split
  · exact (live_plain (plain_print _)).bind fun _ ↦ hnone
  · refine (live_malloc _).bind fun buf ↦ ?_
    cases buf with
    | none => exact (live_plain (plain_print _)).bind fun _ ↦ live_free_null.bind fun _ ↦ hnone
    | some buf => exact triple_pure fun _ ↦ id

/-- **`read` gives back what it takes.** -/
theorem live_readCommand (hba : Hba) {g : Registry} (hg : g.All Detected)
    (line : List UInt8) :
    Triple dev (Live identify live) (readCommand hba g line) (fun _ ↦ Live identify live) := by
  refine ((live_prepareRead g line).and_returns (returns_prepareRead hg line dev)).bind fun o ↦ ?_
  cases o with
  | none => exact triple_pure fun _ hh ↦ hh.1
  | some call =>
    refine Triple.mono
      (P := fun h ↦ Detected call.disk ∧ Live identify (call.block.addr :: live) h)
      (triple_and fun hcall ↦ ?_) (fun _ hh ↦ ⟨hh.2 call rfl, hh.1⟩) fun _ _ hh ↦ hh
    have hout : call.block.addr ∈ call.block.addr :: live := List.mem_cons_self
    refine (live_dma (.inr hout)).bind fun old ↦
      (live_diskRead hcall hba call.lba call.count
        ⟨call.block.addr, fun i ↦ old i.toNat⟩ hout).bind fun r ↦ .ite (fun _ ↦ ?_) fun _ ↦ ?_
    · exact (live_plain (plain_print _)).bind fun _ ↦
        (live_plain (plain_hexDump _ _)).bind fun _ ↦
        (live_plain (plain_print _)).bind fun _ ↦ live_free call.block.addr_ne_zero
    · exact (live_plain (plain_print _)).bind fun _ ↦ live_free call.block.addr_ne_zero

/-- **A command** leaves what is out as it is. -/
theorem live_runCommand {sys : System}
    (hdisks : sys.disks.All Detected) (line : List UInt8) (t : Vga.Term)
    (hlive : Live identify live h) :
    Live identify live (h ++ (runCommand sys dev h line t).trace) := by
  rw [runCommand]
  cases dispatch line with
  | help => exact live_plain plain_helpCommand h hlive
  | disks => exact live_plain (plain_diskList sys.disks) h hlive
  | pci => exact live_plain (plain_pciListDevices sys.pci) h hlive
  | read => exact live_readCommand sys.hba hdisks line h hlive
  | clear | echo | reboot | unknown => exact (List.append_nil h).symm ▸ hlive

/-- **The kernel keeps the heap in order**, on every machine and whatever is typed.  All that it
does with the heap, up to any moment, is in order, and so no block is freed more often than it has
been handed out.  At the first prompt the blocks that are out are those of the disks in the table,
unless the table is full, and 40 at most; and the shell leaves it at that. -/
theorem kernel_keeps_heap (b : Boot) (keys : List UInt8) :
    (∀ t, t <+: kernelTrace b keys → (Ledger.run [] (heapLog b.identify t)).isSome ∧
      ∀ a, (heapLog b.identify t).count (.release a) ≤ (heapLog b.identify t).count (.acquire a)) ∧
    ∃ live, Live b.identify live b.trace ∧ Live b.identify live (kernelTrace b keys) ∧
      live.length ≤ 40 ∧ ∀ sys ∈ b.system, blocksIn sys.disks ≤ live.length ∧
        (sys.disks.count < maxDisks → live.length = blocksIn sys.disks) := by
  obtain ⟨live, hboot, hle, hsystem⟩ := atPrompt_kernelBoot b.tries b.depth [] live_nil
  have hall : Live b.identify live (kernelTrace b keys) := kernelTrace_keeps hboot
    (fun _ hsys _ line t ↦ live_runCommand (detected_system hsys) line t) keys
  refine ⟨fun t ht ↦ ?_, live, hboot, hall, hle, hsystem⟩
  obtain ⟨rest, hrest⟩ := ht
  have horder : (Ledger.run [] (heapLog b.identify t)).isSome := by
    have hsome := Option.isSome_of_eq_some hall
    rw [← hrest, heapLog, List.flatMap_append] at hsome
    exact Ledger.isSome_run_of_append hsome
  exact ⟨horder, fun a ↦ by simpa using Ledger.count_release_le horder a⟩

/-! ## A machine with everything -/

/-- Whatever comes of it, a call of `disk_read` is followed by `free`. -/
theorem free_mem_readCommand (hba : Hba) {g : Registry} {line : List UInt8} {call : ReadCall}
    (hcall : (prepareRead g line).value dev h = some call) :
    .out (.free call.block.addr) ∈ (readCommand hba g line).trace dev h := by
  rw [readCommand, trace_bind, hcall]
  refine List.mem_append_right _ ?_
  rw [trace_bind]
  refine List.mem_append_right _ ?_
  rw [trace_bind]
  refine List.mem_append_right _ ?_
  rw [trace_ite]
  split
  · rw [trace_bind, trace_bind, trace_bind]
    exact List.mem_append_right _ (List.mem_append_right _ (List.mem_append_right _
      (List.mem_singleton_self _)))
  · rw [trace_bind]
    exact List.mem_append_right _ (List.mem_singleton_self _)

/-- How many blocks have been handed out. -/
def handedOut (h : Trace machine) : ℕ :=
  h.countP fun
    | .inp (.malloc _) (some _) => true
    | _ => false

/-- The next block of a heap that begins at 32 MiB and never gets anything back. -/
def nextBlock (h : Trace machine) (size : UInt64) : Block where
  addr := 0x2000000 + 0x1000 * .ofNat (handedOut h % 2 ^ 20)
  size := size.toNat
  addr_ne_zero := by
    rw [Ne, ← UInt64.toNat_inj]
    simp
    omega

/-- Blank drives, a keyboard whose controller takes its time, and a heap. -/
def blankMachine : Device machine
  | h, .inb p =>
    if p = 0x64 ∨ p = 0x60 then (controller 3).device ⟨0x61, [0x1C], 0, 0, false⟩ h (.inb p)
    else channelBus.device (fun _ ↦ blank) h (.inb p)
  | h, .malloc size => some ⟨nextBlock h size, Nat.le_refl _⟩
  | h, i => channelBus.device (fun _ ↦ blank) h i

theorem hasDrives_blankMachine : HasDrives blankMachine fun _ ↦ blank where
  attached c := by
    intro h i hi
    have hbus : channelBus.device (fun _ ↦ blank) h i = (drives c.base).device blank h i :=
      Peripheral.attached_bus (owner_channel c) (fun _ ↦ blank) h i hi
    rw [← hbus]
    rcases hi with rfl | rfl
    · refine if_neg ?_
      cases c <;> decide
    · rfl
  malloc _ _ := ⟨_, rfl⟩
  config _ _ _ _ _ := rfl

/-- The kernel is started on it. -/
def blankBoot : Boot where
  dev := blankMachine
  tries := 0
  depth := 0
  identify := 0
  term := ⟨0, 0, 7, fun _ ↦ 0⟩
  cmdBuf _ := 0

theorem comesUp_blankBoot : blankBoot.ComesUp := by
  have hs : Pci.Serves blankBoot.dev (fun _ ↦ 0) [] := fun _ _ ↦ rfl
  have hkeyboard : (controller 3).Attached ⟨0x61, [0x1C], 0, 0, false⟩ controllerPart
      blankBoot.dev := by
    rintro h i (rfl | rfl) <;> rfl
  obtain ⟨u, hu, -⟩ := keyboardInit_works hkeyboard (by decide : 3 < 4) (by decide) banner
    ⟨rfl, rfl, Nat.zero_le _, le_rfl, rfl⟩
  exact comesUp_of_grounded blankBoot hs (Option.isSome_of_eq_some hu)
    (grounded_of_empty fun _ ha ↦ ha.2 rfl) (room_of_empty fun _ ha ↦ ha.2 rfl)

theorem disks_of_hasDrives {b : Boot} {s : Channel → Drives} (hdrives : HasDrives b.dev s)
    {sys : System} (hsys : b.system = some sys) :
    sys.disks = (driveDisks s).foldl Registry.add .empty :=
  disks_system (P := fun g _ ↦ g = (driveDisks s).foldl Registry.add .empty)
    (returns_findDisks hdrives b.identify) hsys

/-- `read 0 0 1`. -/
def readZero : List UInt8 := [114, 101, 97, 100, 32, 48, 32, 48, 32, 49]

/-- On that machine eight blocks are out at the first prompt, two for each of four disks, and when
`read 0 0 1` is typed the block that it takes is given back. -/
theorem kernel_keeps_heap_read : ∃ tries depth,
    let b : Boot := { blankBoot with tries, depth }
    (∃ live, live.length = 8 ∧ Live b.identify live b.trace ∧
      Live b.identify live (kernelTrace b (readZero ++ [10]))) ∧
    ∃ a, .release a ∈ heapLog b.identify (kernelTrace b (readZero ++ [10])) := by
  obtain ⟨tries, depth, hup⟩ := comesUp_blankBoot
  obtain ⟨sys, hsys⟩ := Option.isSome_iff_exists.mp hup
  refine ⟨tries, depth, ?_⟩
  intro b
  have hdrives : HasDrives b.dev fun _ ↦ blank := hasDrives_blankMachine
  have hdisks := disks_of_hasDrives hdrives hsys
  constructor
  · obtain ⟨-, live, hboot, hall, -, hsystem⟩ := kernel_keeps_heap b (readZero ++ [10])
    have hlen := (hsystem sys hsys).2 (by rw [hdisks]; decide)
    exact ⟨live, by rw [hlen, hdisks]; decide, hboot, hall⟩
  · obtain ⟨d, hd⟩ : ∃ d, diskGet sys.disks (parseRead readZero).diskIdx = some d :=
      Option.isSome_iff_exists.mp (by rw [hdisks]; decide)
    have hcall (h : Trace machine) : ∃ call, (prepareRead sys.disks readZero).value b.dev h =
        some call := by
      rw [prepareRead]
      simp only [hd]
      exact ⟨_, rfl⟩
    have hrun : (session sys b.dev b.trace b.screen b.cmdBuf readZero).stopped = false := rfl
    have hline : (typing readZero).line = readZero := by decide
    have hread : dispatch readZero = .read := by decide
    obtain ⟨t, hhistory⟩ := history_enter hrun (by rw [hline]; decide) (.inl rfl : IsEnter 10)
    obtain ⟨call, hcall⟩ := hcall (session sys b.dev b.trace b.screen b.cmdBuf readZero).history
    have htrace : kernelTrace b (readZero ++ [10]) =
        (session sys b.dev b.trace b.screen b.cmdBuf (readZero ++ [10])).history := by
      rw [kernelTrace, kernelMain, hsys]
      rfl
    refine ⟨call.block.addr, List.mem_flatMap.mpr ⟨.out (.free call.block.addr), ?_, ?_⟩⟩
    · rw [htrace, hhistory, hline, runCommand, hread]
      exact List.mem_append_right _ (free_mem_readCommand sys.hba hcall)
    · rw [heapActions, if_neg call.block.addr_ne_zero]
      exact List.mem_singleton_self _

end Aetherion.Shell
