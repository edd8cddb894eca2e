import Mathlib.Algebra.Group.Nat.Defs
import Aetherion.Ata.Waiting

/-!
# Reads that stop half-way

`ata_pio_read` asks for one sector at a time, waits for DRQ and takes the 256 words, and gives up
at the first wait that fails.  What the drive supplies up to there is a matter of its answers
alone: `Session.readBegun` is the history in which sector `k` is asked for, if no wait before it
has failed, and `Session.supplied` the words that the drive hands over then.

`ata_pio_read_ends` says what is left of the request: the sectors before the one that failed are in
the buffer, nothing else in the buffer has changed, and nothing has been sent to the drive but
their commands and the one that failed.
-/

set_option autoImplicit false

namespace Aetherion.Ata

open Driver Driver.Prog

namespace Session

/-! ## What the drive supplies -/

section
variable (q : Session)

/-- The history when sector `k` is asked for, if no wait before it has failed. -/
def readBegun : ℕ → Trace machine
  | 0 => q.history
  | k + 1 => polled q.dev (.inw q.basePort) (q.awaited 0x24 0x20 k (readBegun k)) 256

/-- The wait of sector `k` fails. -/
def ReadFails (k : ℕ) : Prop := q.DrqFails 0x24 0x20 k (q.readBegun k)

/-- Word `j` of sector `k`. -/
def supplied (k j : ℕ) : UInt16 :=
  answer q.dev (.inw q.basePort) (q.awaited 0x24 0x20 k (q.readBegun k)) j

/-- The buffer with the first `n` words from the drive. -/
def received (buffer : UInt32 → UInt16) (n : ℕ) : UInt32 → UInt16 :=
  fun i ↦ if i.toNat < n then q.supplied (i.toNat / 256) (i.toNat % 256) else buffer i

/-- The READ command for sector `k`. -/
def readOuts (k : ℕ) : List Out := commandOuts q.basePort (q.sectorLba k) q.lba48 0x24 0x20

/-- **How a read ends**: with this result, the words of the first `filled` sectors in the buffer
and nothing else changed there, and one command sent for each of the first `asked` sectors. -/
structure ReadEnds (count : UInt32) (buffer : UInt32 → UInt16) (result : ℤ) (filled asked : ℕ) :
    Prop where
  value : (ataPioRead q.basePort q.lba count buffer q.lba48).value q.dev q.history =
    (result, q.received buffer (256 * filled))
  sent : outs ((ataPioRead q.basePort q.lba count buffer q.lba48).trace q.dev q.history) =
    (List.range asked).flatMap q.readOuts

end

/-! ## One sector -/

variable {q : Session} {buffer : UInt32 → UInt16}

/-- One more word. -/
theorem update_received {k i : ℕ} (hk : k < 2 ^ 24) (hi : i < 256) :
    Function.update (q.received buffer (256 * k + i)) (UInt32.ofNat k * 256 + UInt32.ofNat i)
      (q.supplied k i) = q.received buffer (256 * k + (i + 1)) := by
  have hindex : (UInt32.ofNat k * 256 + UInt32.ofNat i).toNat = 256 * k + i := by
    rw [UInt32.toNat_add, UInt32.toNat_mul, UInt32.toNat_ofNat', UInt32.toNat_ofNat']
    change (k % 2 ^ 32 * 256 % 2 ^ 32 + i % 2 ^ 32) % 2 ^ 32 = _
    omega
  funext x
  rw [Function.update_apply, received, received]
  by_cases hx : x = UInt32.ofNat k * 256 + UInt32.ofNat i
  · rw [if_pos hx, hx, hindex, if_pos (by omega), show (256 * k + i) / 256 = k by omega,
      show (256 * k + i) % 256 = i by omega]
  · have hne : x.toNat ≠ 256 * k + i := fun h ↦ hx (UInt32.toNat_inj.mp (h.trans hindex.symm))
    rw [if_neg hx]
    exact if_congr (by omega) rfl rfl

variable (q buffer) in
/-- The loop that takes the words of a sector. -/
theorem readWords_spec {k : ℕ} (hk : k < 2 ^ 24) {n : ℕ} (hn : n ≤ 256) :
    let body := fun i (buf : UInt32 → UInt16) ↦ do
      let w ← inw q.basePort
      pure (Function.update buf (UInt32.ofNat k * 256 + UInt32.ofNat i) w)
    let h := q.awaited 0x24 0x20 k (q.readBegun k)
    (forEach body n 0 (q.received buffer (256 * k))).value q.dev h =
        q.received buffer (256 * k + n) ∧
      h ++ (forEach body n 0 (q.received buffer (256 * k))).trace q.dev h =
        polled q.dev (.inw q.basePort) h n := by
  intro body h
  have hrun := forEach_run body (fun i a h' ↦ a = q.received buffer (256 * k + i) ∧
    h' = polled q.dev (.inw q.basePort) h i) q.dev n 0
    (by
      rintro i a h' - hi ⟨rfl, rfl⟩
      exact ⟨update_received hk (by omega), rfl⟩)
    (a := q.received buffer (256 * k)) (h := h) ⟨rfl, rfl⟩
  rwa [Nat.zero_add] at hrun

/-- The wait sends nothing. -/
theorem outs_awaited (ext short : UInt8) (k : ℕ) (h : Trace machine) :
    outs (q.awaited ext short k h) =
      outs h ++ commandOuts q.basePort (q.sectorLba k) q.lba48 ext short := by
  have hwait : outs (q.awaited ext short k h) = outs (q.asked ext short k h) := by
    have hends := ataWaitDrq_ends q.basePort q.dev (q.asked ext short k h)
    generalize (ataWaitDrq q.basePort 500).value q.dev (q.asked ext short k h) = r at hends
    rw [awaited]
    generalize q.asked ext short k h ++
      (ataWaitDrq q.basePort 500).trace q.dev (q.asked ext short k h) = t at hends ⊢
    cases hends <;> exact outs_polled _ _ _ _
  rw [hwait, asked, outs_append, trace_ataCommand, outs_ofOuts]

theorem outs_readBegun (k : ℕ) :
    outs (q.readBegun k) = outs q.history ++ (List.range k).flatMap q.readOuts := by
  induction k with
  | zero => exact (List.append_nil _).symm
  | succ k ih =>
    rw [readBegun, outs_polled, outs_awaited, ih, List.range_succ, List.flatMap_append,
      List.append_assoc, List.flatMap_singleton]
    rfl

/-- **One sector**: the program gives up, or it takes the words and stands before the next. -/
theorem ataReadSector_spec {k : ℕ} (hk : k < 2 ^ 24) :
    let sector := ataReadSector q.basePort q.lba q.lba48 (.ofNat k) (q.received buffer (256 * k))
    (q.ReadFails k → sector.value q.dev (q.readBegun k) = .error (q.received buffer (256 * k)) ∧
      q.readBegun k ++ sector.trace q.dev (q.readBegun k) =
        q.awaited 0x24 0x20 k (q.readBegun k)) ∧
    (¬q.ReadFails k →
      sector.value q.dev (q.readBegun k) = .ok (q.received buffer (256 * (k + 1))) ∧
      q.readBegun k ++ sector.trace q.dev (q.readBegun k) = q.readBegun (k + 1)) := by
  intro sector
  have hcond : q.ReadFails k ↔ (ataWaitDrq q.basePort 500).value q.dev (q.readBegun k ++
      (ataCommand q.basePort (q.lba + (UInt32.ofNat k).toUInt64) q.lba48 0x24 0x20).trace q.dev
        (q.readBegun k)) < 0 := Iff.rfl
  obtain ⟨hvalue, htrace⟩ := readWords_spec q buffer hk (n := 256) le_rfl
  rw [← Nat.mul_add_one] at hvalue
  rw [readBegun]
  simp only [awaited, asked, sectorLba] at hvalue htrace
  simp only [sector, ataReadSector, awaited, asked, sectorLba]
  rw [value_bind, trace_bind, ← List.append_assoc, value_bind, trace_bind, ← List.append_assoc,
    value_ite, trace_ite]
  constructor
  · intro hfails
    rw [if_pos (hcond.mp hfails), if_pos (hcond.mp hfails), trace_pure, List.append_nil]
    exact ⟨rfl, rfl⟩
  · intro hfails
    rw [if_neg (mt hcond.mpr hfails), if_neg (mt hcond.mpr hfails), value_bind, trace_bind,
      trace_pure, List.append_nil, value_pure, hvalue]
    exact ⟨rfl, htrace⟩

/-! ## The request -/

variable (q buffer) in
/-- The way of the loop over the sectors. -/
theorem path_ataReadSector {n : ℕ} (hn : n ≤ 2 ^ 24) :
    Path (fun sector buf ↦ ataReadSector q.basePort q.lba q.lba48 (.ofNat sector) buf) q.dev
      (fun k ↦ q.received buffer (256 * k)) q.readBegun
      (fun k buf ↦ q.ReadFails k ∧ buf = q.received buffer (256 * k))
      (fun k ↦ q.awaited 0x24 0x20 k (q.readBegun k)) n := by
  constructor
  · rintro k hk r ⟨hfails, rfl⟩
    exact (ataReadSector_spec (by omega)).1 hfails
  · intro k hk hgoes
    exact (ataReadSector_spec (by omega)).2 fun hfails ↦ hgoes _ ⟨hfails, rfl⟩

/-- What is made of the end of the loop. -/
theorem readEnds_of_loop {count : UInt32} {v : Except (UInt32 → UInt16) (UInt32 → UInt16)}
    {t : Trace machine} {result : ℤ} {filled asked : ℕ}
    (hloop : (forLoop (fun sector buf ↦ ataReadSector q.basePort q.lba q.lba48 (.ofNat sector) buf)
      count.toNat 0 buffer).value q.dev q.history = v)
    (htrace : q.history ++ (forLoop (fun sector buf ↦ ataReadSector q.basePort q.lba q.lba48
      (.ofNat sector) buf) count.toNat 0 buffer).trace q.dev q.history = t)
    (hv : v = .error (q.received buffer (256 * filled)) ∧ result = -1 ∨
      v = .ok (q.received buffer (256 * filled)) ∧ result = 0)
    (ht : outs t = outs q.history ++ (List.range asked).flatMap q.readOuts) :
    q.ReadEnds count buffer result filled asked := by
  subst htrace
  rw [outs_append, List.append_cancel_left_eq] at ht
  rcases hv with ⟨rfl, rfl⟩ | ⟨rfl, rfl⟩
  all_goals
    refine ⟨?_, ?_⟩
    · rw [ataPioRead, value_bind, hloop]
      rfl
    · rw [ataPioRead, trace_bind, hloop, outs_append, ht]
      exact List.append_nil _

end Session

/-- **Where a read stops**: at the first sector whose wait fails, with the words of the sectors
before it in the buffer, or nowhere, with the words of all of them. -/
theorem ata_pio_read_ends (q : Session) (count : UInt32) (hcount : count.toNat ≤ 2 ^ 24)
    (buffer : UInt32 → UInt16) :
    (∀ k < count.toNat, (∀ j < k, ¬q.ReadFails j) → q.ReadFails k →
      q.ReadEnds count buffer (-1) k (k + 1)) ∧
    ((∀ k < count.toNat, ¬q.ReadFails k) →
      q.ReadEnds count buffer 0 count.toNat count.toNat) := by
  have hzero : q.received buffer (256 * 0) = buffer := by
    funext i
    exact if_neg (Nat.not_lt_zero _)
  have hends := forLoop_ends (q.path_ataReadSector buffer hcount)
  rw [hzero, Session.readBegun] at hends
  generalize hv : (forLoop (fun sector buf ↦ ataReadSector q.basePort q.lba q.lba48
    (.ofNat sector) buf) count.toNat 0 buffer).value q.dev q.history = v at hends
  generalize ht : q.history ++ (forLoop (fun sector buf ↦ ataReadSector q.basePort q.lba q.lba48
    (.ofNat sector) buf) count.toNat 0 buffer).trace q.dev q.history = t at hends
  cases hends with
  | stopped k r hk hbefore hstops =>
    obtain ⟨hfails, rfl⟩ := hstops
    constructor
    · intro k' _ hbefore' hfails'
      obtain rfl := first_unique hfails (fun j hj hf ↦ hbefore j hj _ ⟨hf, rfl⟩) hfails' hbefore'
      refine Session.readEnds_of_loop hv ht (Or.inl ⟨rfl, rfl⟩) ?_
      rw [Session.outs_awaited, Session.outs_readBegun, List.range_succ, List.flatMap_append,
        List.append_assoc, List.flatMap_singleton]
      rfl
    · intro hall
      exact absurd hfails (hall k hk)
  | finished hall =>
    constructor
    · intro k hk _ hfails
      exact absurd ⟨hfails, rfl⟩ (hall k hk _)
    · intro _
      exact Session.readEnds_of_loop hv ht (Or.inr ⟨rfl, rfl⟩) (Session.outs_readBegun _)

/-- A request to a channel that sets ERR from the third command on. -/
def failingSession : Session where
  basePort := 0x1F0
  lba := 0
  lba48 := false
  dev h i := steadyMachine (if (outs h).length ≤ 12 then 0x58 else 0x51) 0xABCD 0 h i
  history := []

/-- What its status is while sector `k` is waited for. -/
theorem statusAnswer_failingSession (k j : ℕ) :
    let q := failingSession
    statusAnswer q.basePort q.dev (q.asked 0x24 0x20 k (q.readBegun k)) j =
      if k < 2 then 0x58 else 0x51 := by
  intro q
  have hlength : (outs (polled q.dev (statusPort q.basePort)
      (q.asked 0x24 0x20 k (q.readBegun k)) j)).length = 6 * (k + 1) := by
    have hasked (i : ℕ) : (q.readOuts i).length = 6 := rfl
    have hreads : ((List.range k).flatMap q.readOuts).length = k * 6 := by
      simp only [List.length_flatMap, hasked, List.map_const', List.sum_replicate_nat,
        List.length_range]
    have hbefore : (outs q.history).length = 0 := rfl
    rw [outs_polled, Session.asked, outs_append, Session.outs_readBegun, trace_ataCommand,
      outs_ofOuts, List.length_append, List.length_append, hreads, hbefore]
    change 0 + k * 6 + (q.readOuts k).length = _
    rw [hasked]
    omega
  change (if (outs (polled q.dev (statusPort q.basePort) _ j)).length ≤ 12 then _ else _) = _
  rw [hlength]
  exact if_congr (by omega) rfl rfl

theorem readFails_failingSession (k : ℕ) : failingSession.ReadFails k ↔ 2 ≤ k := by
  have hstatus := statusAnswer_failingSession k
  dsimp only at hstatus
  rw [Session.ReadFails, Session.drqFails_iff, Refuses]
  simp only [hstatus]
  by_cases hk : k < 2
  · simp only [if_pos hk]
    refine iff_of_false ?_ (not_le.mpr hk)
    rintro (⟨j, -, herror, -⟩ | hnone)
    · exact absurd herror (by decide)
    · exact absurd (hnone 0 (by decide)) (by decide)
  · simp only [if_neg hk]
    exact iff_of_true (Or.inl ⟨0, by decide, by decide, fun i hi ↦ absurd hi (Nat.not_lt_zero i)⟩)
      (not_lt.mp hk)

/-- A channel with DRQ set hands over three sectors, and one that fails at the third only two. -/
theorem ata_pio_read_ends_three :
    (steadySession 0x58).ReadEnds 3 (fun _ ↦ 0) 0 3 3 ∧
      failingSession.ReadEnds 3 (fun _ ↦ 0) (-1) 2 3 :=
  ⟨(ata_pio_read_ends (steadySession 0x58) 3 (by decide) _).2 fun k _ ↦
      not_drqFails_steadySession (by decide) _ _ k _,
    (ata_pio_read_ends failingSession 3 (by decide) _).1 2 (by decide)
      (fun j hj ↦ mt (readFails_failingSession j).mp (not_le.mpr hj))
      ((readFails_failingSession 2).mpr le_rfl)⟩

end Aetherion.Ata
