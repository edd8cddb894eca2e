import Aetherion.Ata.PartialRead
import Aetherion.Ata.WriteErrors

/-!
# The place of a sector in the buffer

Word `i` of sector `k` belongs at word `256 * k + i` of the buffer.  `ata_pio_read` and
`ata_pio_write` compute the index in 32 bits, `sector * 256 + i`, but `count` may be any 32-bit
number: from sector `2 ^ 24` on the index is that of a word at the start of the buffer
(`reads_and_writes_in_place_iff`).

The buffer is taken for what it is, an address with memory behind it (`behind`), so that there is a
place for every sector that can be asked for.
-/

set_option autoImplicit false

namespace Aetherion.Ata

open Driver Driver.Prog

/-! ## Memory behind a buffer -/

/-- What the driver finds at its indices, with this memory behind the address of the buffer. -/
def behind (mem : ℕ → UInt16) : UInt32 → UInt16 := fun i ↦ mem i.toNat

/-- The memory when the driver has left these words at its indices. -/
def memoryWith (mem : ℕ → UInt16) (buffer : UInt32 → UInt16) : ℕ → UInt16 :=
  fun n ↦ if n < 2 ^ 32 then buffer (.ofNat n) else mem n

/-- A word that is sent to the data port. -/
def dataWord (basePort : UInt16) : Out → Option UInt16
  | .outw p w => if p = basePort then some w else none
  | _ => none

/-- The words that are sent to the data port. -/
def dataWords (basePort : UInt16) (os : List Out) : List UInt16 := os.filterMap (dataWord basePort)

namespace Session

section
variable (q : Session) (mem : ℕ → UInt16) (count : UInt32)

/-- The memory with the words of the first `k` sectors in their places, and nothing else changed. -/
def placed (k : ℕ) : ℕ → UInt16 :=
  fun n ↦ if n < 256 * k then q.supplied (n / 256) (n % 256) else mem n

/-- The memory after `ata_pio_read`. -/
def memoryAfterRead : ℕ → UInt16 :=
  memoryWith mem
    ((ataPioRead q.basePort q.lba count (behind mem) q.lba48).value q.dev q.history).2

/-- The words that `ata_pio_write` sends. -/
def wordsSent : List UInt16 :=
  dataWords q.basePort
    (outs ((ataPioWrite q.basePort q.lba count (behind mem) q.lba48).trace q.dev q.history))

/-- **A read puts every sector in its place**, all of them or those before the one that fails. -/
structure ReadsInPlace : Prop where
  stopped : ∀ k < count.toNat, (∀ j < k, ¬q.ReadFails j) → q.ReadFails k →
    q.memoryAfterRead mem count = q.placed mem k
  finished : (∀ k < count.toNat, ¬q.ReadFails k) →
    q.memoryAfterRead mem count = q.placed mem count.toNat

/-- **A write takes every sector from its place.** -/
structure WritesInPlace : Prop where
  stopped : ∀ k < count.toNat, (∀ j < k, ¬Refuses (q.dataStatus (behind mem) j)) →
    Refuses (q.dataStatus (behind mem) k) →
    q.wordsSent mem count = (List.range (256 * k)).map mem
  finished : (∀ k < count.toNat, ¬Refuses (q.dataStatus (behind mem) k)) →
    q.wordsSent mem count = (List.range (256 * count.toNat)).map mem

end

/-! ## Reads -/

variable {q : Session} {mem : ℕ → UInt16} {buffer : UInt32 → UInt16} {count : UInt32}

theorem memoryWith_received {k : ℕ} (hk : k ≤ 2 ^ 24) :
    memoryWith mem (q.received (behind mem) (256 * k)) = q.placed mem k := by
  funext n
  rw [memoryWith, placed]
  by_cases hn : n < 2 ^ 32
  · have htoNat : (UInt32.ofNat n).toNat = n := by
      rw [UInt32.toNat_ofNat']
      exact Nat.mod_eq_of_lt hn
    rw [if_pos hn, received, htoNat, behind, htoNat]
  · rw [if_neg hn, if_neg (by omega)]

/-- As long as the index does not wrap around, everything is in its place. -/
theorem readsInPlace (q : Session) (mem : ℕ → UInt16) (hcount : count.toNat ≤ 2 ^ 24) :
    q.ReadsInPlace mem count := by
  obtain ⟨hstopped, hfinished⟩ := ata_pio_read_ends q count hcount (behind mem)
  constructor
  · intro k hk hbefore hfails
    rw [memoryAfterRead, (hstopped k hk hbefore hfails).value]
    exact memoryWith_received (by omega)
  · intro hall
    rw [memoryAfterRead, (hfinished hall).value]
    exact memoryWith_received hcount

/-! ## Writes -/

theorem dataWords_commandOuts (lba : UInt64) (lba48 : Bool) (ext short : UInt8) :
    dataWords q.basePort (commandOuts q.basePort lba lba48 ext short) = [] := by
  cases lba48 <;> rfl

/-- The command and the wait send no data. -/
theorem dataWords_awaited (k : ℕ) (h : Trace machine) :
    dataWords q.basePort (outs (q.awaited 0x34 0x30 k h)) = dataWords q.basePort (outs h) := by
  rw [outs_awaited, dataWords, List.filterMap_append]
  exact (congrArg _ (dataWords_commandOuts ..)).trans (List.append_nil _)

/-- The words of a sector are those at the driver's indices. -/
theorem dataWords_flushIssued (k : ℕ) (h : Trace machine) :
    dataWords q.basePort (outs (q.flushIssued buffer k h)) =
      dataWords q.basePort (outs h) ++
        (List.range 256).map fun i ↦ buffer (.ofNat (256 * k + i)) := by
  have hindex (i : ℕ) : UInt32.ofNat k * 256 + .ofNat i = .ofNat (256 * k + i) := by
    rw [UInt32.ofNat_add, UInt32.ofNat_mul, UInt32.mul_comm]
    rfl
  have hwords : dataWords q.basePort ((List.range 256).map fun i ↦
      Out.outw q.basePort (buffer (UInt32.ofNat k * 256 + .ofNat i))) =
      (List.range 256).map fun i ↦ buffer (.ofNat (256 * k + i)) := by
    simp only [hindex, dataWords, List.filterMap_map, dataWord, Function.comp_def, if_pos]
    exact congrFun (List.filterMap_eq_map (f := fun i ↦ buffer (.ofNat (256 * k + i)))) _
  have hflush : dataWords q.basePort
      (outs ([.out (.outb (q.basePort + 7) 0xE7)] : Trace machine)) = [] := rfl
  rw [flushIssued, outs_append, outs_append, outs_ofOuts, dataWords, List.filterMap_append,
    List.filterMap_append]
  change dataWords q.basePort _ ++ dataWords q.basePort _ ++ dataWords q.basePort _ = _
  rw [dataWords_awaited, hwords, hflush, List.append_nil]

/-- **The words of the first sectors.** -/
theorem dataWords_writeBegun (k : ℕ) :
    dataWords q.basePort (outs (q.writeBegun buffer k)) =
      dataWords q.basePort (outs q.history) ++
        (List.range (256 * k)).map fun n ↦ buffer (.ofNat n) := by
  induction k with
  | zero => exact (List.append_nil _).symm
  | succ k ih =>
    obtain ⟨n, -, hbegun⟩ := flush_ends q buffer k
    rw [hbegun, outs_polled, dataWords_flushIssued, ih, Nat.mul_succ, List.range_add,
      List.map_append, List.map_map, List.append_assoc]
    rfl

/-- **What a write sends.** -/
theorem dataWords_ataPioWrite (q : Session) (count : UInt32) (buffer : UInt32 → UInt16) :
    let sent := dataWords q.basePort
      (outs ((ataPioWrite q.basePort q.lba count buffer q.lba48).trace q.dev q.history))
    (∀ k < count.toNat, (∀ j < k, ¬Refuses (q.dataStatus buffer j)) →
      Refuses (q.dataStatus buffer k) →
        sent = (List.range (256 * k)).map fun n ↦ buffer (.ofNat n)) ∧
    ((∀ k < count.toNat, ¬Refuses (q.dataStatus buffer k)) →
      sent = (List.range (256 * count.toNat)).map fun n ↦ buffer (.ofNat n)) := by
  intro sent
  -- what is sent after the history is what is sent in all but for that
  have hsent {n : ℕ} (hn : dataWords q.basePort (outs (q.history ++
      (ataPioWrite q.basePort q.lba count buffer q.lba48).trace q.dev q.history)) =
      dataWords q.basePort (outs q.history) ++
        (List.range (256 * n)).map fun n ↦ buffer (.ofNat n)) :
      sent = (List.range (256 * n)).map fun n ↦ buffer (.ofNat n) := by
    rw [outs_append, dataWords, List.filterMap_append] at hn
    exact List.append_cancel_left hn
  rcases q.ataPioWrite_path count buffer with
    ⟨k, hk, hbefore, hrefuses, -, htrace⟩ | ⟨hall, -, htrace⟩
  · refine ⟨fun k' _ hbefore' hrefuses' ↦ ?_, fun hall ↦ absurd hrefuses (hall k hk)⟩
    obtain rfl := first_unique hrefuses hbefore hrefuses' hbefore'
    exact hsent (by rw [htrace, dataWords_awaited, dataWords_writeBegun])
  · refine ⟨fun k hk _ hrefuses ↦ absurd hrefuses (hall k hk), fun _ ↦ ?_⟩
    exact hsent (by rw [htrace, dataWords_writeBegun])

theorem map_behind {k : ℕ} (hk : k ≤ 2 ^ 24) :
    (List.range (256 * k)).map (fun n ↦ behind mem (.ofNat n)) =
      (List.range (256 * k)).map mem := by
  refine List.map_congr_left fun n hn ↦ ?_
  have hlt := List.mem_range.mp hn
  rw [behind, UInt32.toNat_ofNat', Nat.mod_eq_of_lt (by omega)]

theorem writesInPlace (q : Session) (mem : ℕ → UInt16) (hcount : count.toNat ≤ 2 ^ 24) :
    q.WritesInPlace mem count := by
  obtain ⟨hstopped, hfinished⟩ := dataWords_ataPioWrite q count (behind mem)
  constructor
  · intro k hk hbefore hrefuses
    exact (hstopped k hk hbefore hrefuses).trans (map_behind (by omega))
  · intro hall
    exact (hfinished hall).trans (map_behind hcount)

/-! ## Beyond the index -/

/-- On a channel that is always ready, sector `2 ^ 24` of a read does not come to its place. -/
theorem not_readsInPlace (hcount : 2 ^ 24 < count.toNat) :
    ¬(steadySession 0x58).ReadsInPlace (fun _ ↦ 0) count := by
  intro hplaces
  have hall := hplaces.finished fun k _ ↦ not_drqFails_steadySession (by decide) _ _ k _
  have hword := congrFun hall (2 ^ 32)
  rw [memoryAfterRead, memoryWith, if_neg (Nat.lt_irrefl _), placed, if_pos (by omega)] at hword
  exact absurd hword (show (0 : UInt16) ≠ 0xABCD by decide)

/-- A memory whose first word is different from the others. -/
def marked (n : ℕ) : UInt16 := if n = 0 then 1 else 0

/-- What is sent for sector `2 ^ 24` of a write is the start of the buffer. -/
theorem not_writesInPlace (hcount : 2 ^ 24 < count.toNat) :
    ¬(steadySession 0x58).WritesInPlace marked count := by
  have hall : ∀ k < count.toNat, ¬Refuses ((steadySession 0x58).dataStatus (behind marked) k) :=
    fun k _ ↦ mt ((steadySession 0x58).drqFails_iff _ _ k _).mpr
      (not_drqFails_steadySession (by decide) _ _ k _)
  intro hplaces
  have hsent := ((dataWords_ataPioWrite _ count (behind marked)).2 hall).symm.trans
    (hplaces.finished hall)
  have hlt : 2 ^ 32 < 256 * count.toNat := by omega
  have hword := congrArg (·[2 ^ 32]?) hsent
  simp only [List.getElem?_map, List.getElem?_range hlt, Option.map_some, Option.some.injEq]
    at hword
  rw [behind, UInt32.toNat_ofNat'] at hword
  exact absurd hword (show marked (2 ^ 32 % 2 ^ 32) ≠ marked (2 ^ 32) by decide)

end Session

/-- **Every word is transferred to or from its place**, for every drive and every memory, exactly if
the request has at most `2 ^ 24` sectors. -/
theorem reads_and_writes_in_place_iff (count : UInt32) :
    ((∀ (q : Session) mem, q.ReadsInPlace mem count) ↔ count.toNat ≤ 2 ^ 24) ∧
      ((∀ (q : Session) mem, q.WritesInPlace mem count) ↔ count.toNat ≤ 2 ^ 24) := by
  refine ⟨⟨fun hall ↦ ?_, fun hcount q mem ↦ q.readsInPlace mem hcount⟩,
    ⟨fun hall ↦ ?_, fun hcount q mem ↦ q.writesInPlace mem hcount⟩⟩
  · by_contra hcount
    exact Session.not_readsInPlace (by omega) (hall _ _)
  · by_contra hcount
    exact Session.not_writesInPlace (by omega) (hall _ _)

/-- Sector `2 ^ 24` of a request for one sector more. -/
theorem sector_out_of_place :
    (∃ (q : Session) (mem : ℕ → UInt16), ¬q.ReadsInPlace mem 0x1000001) ∧
      ∃ (q : Session) (mem : ℕ → UInt16), ¬q.WritesInPlace mem 0x1000001 :=
  ⟨⟨_, _, Session.not_readsInPlace (show 2 ^ 24 < UInt32.toNat 0x1000001 by decide)⟩,
    ⟨_, _, Session.not_writesInPlace (show 2 ^ 24 < UInt32.toNat 0x1000001 by decide)⟩⟩

end Aetherion.Ata
