import Aetherion.Pci.Capacity
import Aetherion.Pci.Termination
import Aetherion.Shell.Plain

/-!
# Whether the kernel comes up

On its way to the first prompt the kernel waits for the keyboard controller, scans the buses, and
lists what it has found.  Nothing else can stop it: detection gives up on every disk that does not
answer, and the listings have an end.

So the kernel comes to its prompt without a read past `pci_devices` exactly when `keyboard_init`
returns, when the scan enters no bus from which it cannot come back, and when the table does not
overflow (`comes_up_iff`).  What `pci_list_devices` does when it reads past the table is undefined.
-/

set_option autoImplicit false

namespace Aetherion.Shell

open Driver Driver.Prog Storage Pci Keyboard

/-! ## The kernel -/

/-- What is written before the keyboard is looked for. -/
def banner : Trace machine :=
  [.out (.color .lightCyan .black), .out (.print "=====================================\n"),
    .out (.print "   AETHERION OS - Kernel v0.3\n"),
    .out (.print "=====================================\n\n"), .out (.color .white .black),
    .out (.print "Kernel initialise avec succes.\n"),
    .out (.print "Bienvenue dans Aetherion OS !\n\n")]

/-- The kernel comes to its prompt without a read past `pci_devices`, if every wait is given enough
tries and the scan enough depth. -/
def Boot.ComesUp (b : Boot) : Prop := ∃ tries depth, ({ b with tries, depth } : Boot).system.isSome

section
variable {dev : Device machine}

/-- **Three parts of it may break off.** -/
theorem comesToEnd_kernelBoot (n depth : ℕ) (identify : UInt64) :
    ComesToEnd dev [] (kernelBoot n depth identify) ↔
      ∃ u, (keyboardInit n).run.value dev banner = some u ∧
        ∃ t, (pciInit depth).value dev (banner ++ (keyboardInit n).run.trace dev banner) = some t ∧
          t.count ≤ maxPciDevices := by
  rw [kernelBoot]
  refine comesToEnd_lift.trans <| comesToEnd_lift.trans <| comesToEnd_lift.trans <|
    comesToEnd_lift.trans <| comesToEnd_lift.trans <| comesToEnd_lift.trans <|
    comesToEnd_lift.trans <| comesToEnd_bind.trans <| exists_congr fun _ ↦
    and_congr_right fun _ ↦ comesToEnd_bind.trans <| exists_congr fun t ↦
    and_congr_right fun _ ↦ comesToEnd_lift.trans <| comesToEnd_lift.trans <|
    comesToEnd_bind.trans ?_
  have hlist := returns_pciListDevices dev t
  constructor
  · rintro ⟨u, hu, -⟩
    exact (hlist _).mp (ne_of_eq_of_ne hu (Option.some_ne_none u))
  · intro hle
    obtain ⟨u, hu⟩ := Option.ne_none_iff_exists'.mp ((hlist _).mpr hle)
    exact ⟨u, hu, comesToEnd_lift.mpr (comesToEnd_lift.mpr (comesToEnd_lift.mpr rfl))⟩

end

/-- Nothing that only reads writes a register of a function. -/
theorem ReadOnly.configReads {e : Exchange} (he : ReadOnly e) : configReads.Has e := by
  match e with
  | .inp _ _ => exact trivial
  | .out (.outb p v) =>
    have hsystem : ∀ p ∈ systemPorts, ¬(0xCFC ≤ p ∧ p ≤ 0xCFF) := by simp [systemPorts]
    have hchannel (c : Ata.Channel) : ∀ reg ∈ Ata.registers, ¬(0xCFC ≤ c.base + reg ∧
        c.base + reg ≤ 0xCFF) := by
      cases c <;> simp [Ata.registers, Ata.Channel.base]
    rcases he with hp | ⟨c, reg, hreg, rfl, -⟩
    · exact hsystem p hp
    · exact hchannel c reg hreg
  | .out (.outw _ _) => exact he.elim
  | .out (.outl p _) =>
    obtain rfl : p = 0xCF8 := he
    exact fun h ↦ absurd h.1 (by decide)
  | .out (.mmio _ _) | .out (.store _ _) | .out (.free _) | .out (.print _) | .out (.color _ _) =>
    exact id

/-- The registers are the same when the scan begins. -/
theorem serves_atScan {dev : Device machine} {cs : ConfigSpace} (hs : Serves dev cs []) (n : ℕ) :
    Serves dev cs (banner ++ (keyboardInit n).run.trace dev banner) := by
  refine hs.append (t := banner ++ _) fun e he ↦ ?_
  rcases List.mem_append.mp he with hbanner | hkeyboard
  · have hprints : ∀ e ∈ banner, ReadOnly e := by simp [banner, ReadOnly]
    exact (hprints e hbanner).configReads
  · exact (emits_readOnly (plain_keyboardInit (n := n)) dev banner e hkeyboard).configReads

/-- What is enough for the kernel to come up. -/
theorem comesUp_of_grounded (b : Boot) {cs : ConfigSpace} (hs : Serves b.dev cs []) {tries : ℕ}
    (hkeyboard : ((keyboardInit tries).run.value b.dev banner).isSome) (hground : cs.Grounded)
    (hroom : cs.RoomBehindBridges) : b.ComesUp := by
  obtain ⟨u, hu⟩ := Option.isSome_iff_exists.mp hkeyboard
  have hs := serves_atScan hs tries
  obtain ⟨t, ht⟩ := terminates_of_grounded hs hground
  refine ⟨tries, maxScanDepth, (comesToEnd_kernelBoot tries maxScanDepth b.identify).mpr ?_⟩
  exact ⟨u, hu, t, ht, count_le_of_room hs hroom ⟨maxScanDepth, ht⟩⟩

/-- What there is when it has come up. -/
theorem Boot.ComesUp.parts {b : Boot} (hup : b.ComesUp) {cs : ConfigSpace}
    (hs : Serves b.dev cs []) : (∃ tries, ((keyboardInit tries).run.value b.dev banner).isSome) ∧
      cs.Grounded ∧ cs.RoomBehindBridges := by
  obtain ⟨tries, depth, hup⟩ := hup
  obtain ⟨u, hu, t, ht, hle⟩ := (comesToEnd_kernelBoot tries depth b.identify).mp hup
  have hs := serves_atScan hs tries
  have hreturns : PciInitReturns b.dev _ t := ⟨depth, ht⟩
  exact ⟨⟨tries, Option.isSome_of_eq_some hu⟩, grounded_of_terminates hs ⟨t, hreturns⟩,
    room_of_count_le hs hreturns hle⟩

/-- **The kernel comes to its prompt without a read past `pci_devices`** exactly when
`keyboard_init` returns, and the buses are such that `pci_init` returns and does not overflow its
table. -/
theorem comes_up_iff (b : Boot) {cs : ConfigSpace} (hs : Serves b.dev cs []) :
    b.ComesUp ↔ (∃ tries, ((keyboardInit tries).run.value b.dev banner).isSome) ∧
      cs.Grounded ∧ cs.RoomBehindBridges := by
  constructor
  · exact fun hup ↦ hup.parts hs
  · rintro ⟨⟨tries, hkeyboard⟩, hground, hroom⟩
    exact comesUp_of_grounded b hs hkeyboard hground hroom

section
variable {cs : ConfigSpace} (hnone : ∀ a, ¬cs.Exists a)
include hnone

/-- Without functions there are no bridges to be lost behind. -/
theorem grounded_of_empty : cs.Grounded := by
  intro bus n _ hbottomless
  obtain ⟨_, a, ha, -⟩ := hbottomless bus .refl
  exact hnone a ha.exists

theorem room_of_empty : cs.RoomBehindBridges :=
  fun _ _ _ _ _ hexists _ ↦ absurd hexists (hnone _)

end

/-- A machine whose keyboard answers, with a function behind a bridge. -/
def readyBoot : Boot where
  dev := withRegisters (readyMachine 0x21) (oneBridge true)
  tries := 0
  depth := 0
  identify := 0
  term := ⟨0, 0, 7, fun _ ↦ 0⟩
  cmdBuf _ := 0

theorem serves_readyBoot : Serves readyBoot.dev (oneBridge true) [] :=
  (servesAlways_withRegisters _ _).serves []

theorem readyBoot_keyboard : ((keyboardInit 1).run.value readyBoot.dev banner).isSome := by
  decide +kernel

/-- The kernel comes up on it. -/
theorem comes_up_ready : readyBoot.ComesUp :=
  (comes_up_iff readyBoot serves_readyBoot).mpr
    ⟨⟨1, readyBoot_keyboard⟩, grounded_oneBridge true, room_oneBridge true⟩

end Aetherion.Shell
