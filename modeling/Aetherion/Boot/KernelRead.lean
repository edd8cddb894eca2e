import Aetherion.Boot.DiskCalls

/-!
# Stage 2 goes on only with a kernel

Whatever the BIOS and the processor answer, stage 2 turns protected mode on exactly if the processor
has long mode and the kernel has been read: by a packet, or by chunks that are together as large as
the kernel, all of them without an error (`stage2_enters_iff`).  All its calls are for the drive it
was started from.

Where it does not get so far, it has stopped for a reason (`Stop.Cause`), and two of the reasons are
not meant: a BIOS that reports tracks without sectors has `read_chs` divide by zero, and a kernel of
another size than `read_chs` can take has it read over stage 2.

The invariant of `read_chs` (`AfterChunks`) is that chunk `k` comes after `k` calls that have
succeeded.  It fails at the ninth, which would go to where stage 2 is.
-/

set_option autoImplicit false

namespace Aetherion.Boot.Stage2

open RealMode Driver Driver.Prog

/-! ## A kernel that has been read -/

/-- So many sectors have been read in chunks. -/
def ChunksRead (kernelSectors : UInt16) (chunks : List (Regs × Regs)) : Prop :=
  kernelSectors.toNat % 16 = 0 ∧ kernelSectors.toNat ≤ 128 ∧
    chunks.length = kernelSectors.toNat / 16 ∧ ∀ p ∈ chunks, p.2.cf = false

/-- **The kernel has been read.** -/
def KernelRead (kernelSectors : UInt16) (calls : List (Regs × Regs)) : Prop :=
  (∃ p ∈ calls, p.1.call.ah = 0x42 ∧ p.2.cf = false) ∨ ChunksRead kernelSectors (reads calls)

variable {kernelSectors : UInt16} {v w : Chs} {g : Geometry} {k : ℕ} {c : Int13}
  {chunks pre : List (Regs × Regs)} {p : Regs × Regs}

/-- With chunks only, or after a packet that failed. -/
theorem kernelRead_append (hpre : ∀ p ∈ pre, p.1.call.ah ≠ 0x02 ∧ (p.1.call.ah = 0x42 → p.2.cf))
    (hchunks : ∀ p ∈ chunks, p.1.call.ah = 0x02) :
    reads (pre ++ chunks) = chunks ∧
      (KernelRead kernelSectors (pre ++ chunks) ↔ ChunksRead kernelSectors chunks) := by
  have hnone : reads pre = [] := by
    rw [reads, List.filter_eq_nil_iff]
    exact fun p hp ↦ by simp [(hpre p hp).1]
  have hall : reads chunks = chunks := by
    rw [reads, List.filter_eq_self]
    exact fun p hp ↦ by simp [hchunks p hp]
  have hreads : reads (pre ++ chunks) = chunks := by rw [reads_append, hnone, hall, List.nil_append]
  refine ⟨hreads, ?_⟩
  rw [KernelRead, hreads]
  refine or_iff_right ?_
  rintro ⟨p, hp, hah, hcf⟩
  rcases List.mem_append.mp hp with hp | hp
  · exact absurd ((hpre p hp).2 hah) (by simp [hcf])
  · exact absurd ((hchunks p hp).symm.trans hah) (by decide)

/-! ## Chunk after chunk -/

/-- Calls of `read_chs`, in order. -/
structure Chunks (kernelSectors : UInt16) (v : Chs) (chunks : List (Regs × Regs)) : Prop where
  isCall : ∀ p ∈ chunks, IsCall 0x02 v p.1
  call : ∀ j p, chunks[j]? = some p → Boot.readChs kernelSectors v j = some p.1.call

/-- What has happened when chunks are not read to the end. -/
def ChunksStop (kernelSectors : UInt16) (v : Chs) (chunks : List (Regs × Regs)) : Stop → Prop
  | .halted => ∃ p ∈ chunks, p.2.cf = true
  | .divideError => kernelSectors ≠ 0 ∧ v.secsTrk = 0
  | .overwritten => chunks.length = 9 ∧
      ¬(kernelSectors.toNat % 16 = 0 ∧ kernelSectors.toNat ≤ 128)
  | .endless => False

/-- `read_chs` has made these calls after `pre`, and it returns without the carry flag if `ok`. -/
def ChsEnd (kernelSectors : UInt16) (v : Chs) (pre : List (Regs × Regs)) (ok : Prop)
    (note : List (Regs × Regs) → Prop) (calls : List (Regs × Regs)) : Prop :=
  ∃ chunks, calls = pre ++ chunks ∧ Chunks kernelSectors v chunks ∧
    (ok ↔ ChunksRead kernelSectors chunks) ∧ note chunks

theorem Chunks.concat (h : Chunks kernelSectors v chunks) (hp : IsCall 0x02 v p.1)
    (hcall : Boot.readChs kernelSectors v chunks.length = some p.1.call) :
    Chunks kernelSectors v (chunks ++ [p]) where
  isCall q hq := by
    rcases List.mem_append.mp hq with hq | hq
    · exact h.isCall q hq
    · exact List.mem_singleton.mp hq ▸ hp
  call j q hq := by
    rcases Nat.lt_trichotomy j chunks.length with hlt | rfl | hgt
    · exact h.call j q (by rwa [List.getElem?_append_left hlt] at hq)
    · rw [List.getElem?_concat_length, Option.some_inj] at hq
      exact hq ▸ hcall
    · rw [List.getElem?_eq_none (by simp; omega)] at hq
      cases hq

/-- A chunk too many, or one that failed. -/
theorem not_chunksRead_concat (h : p.2.cf = true ∨ 8 ≤ chunks.length) :
    ¬ChunksRead kernelSectors (chunks ++ [p]) := by
  rintro ⟨-, hle, hlength, hall⟩
  rw [List.length_append, List.length_singleton] at hlength
  rcases h with hcf | hlong
  · rw [hall p (by simp)] at hcf
    cases hcf
  · omega

theorem bootDrive_lba2chs (h : lba2chs v = some w) : w.bootDrive = v.bootDrive := by
  simp only [lba2chs, Option.bind_eq_bind, Option.bind_eq_some_iff, Option.pure_def,
    Option.some_inj] at h
  obtain ⟨_, -, _, -, rfl⟩ := h
  rfl

/-- Whose sectors a pass reads. -/
theorem readChsPass_drive (h : readChsPass v = .read c w) :
    c.ah = 0x02 ∧ c.dl = v.bootDrive ∧ w.bootDrive = v.bootDrive := by
  by_cases hleft : v.left = 0
  · rw [readChsPass, if_pos hleft] at h
    cases h
  cases hchs : lba2chs { v with cnt := 16 } with
  | none =>
    rw [readChsPass_fault hleft hchs] at h
    cases h
  | some t =>
    rw [readChsPass_eq hleft hchs, Pass.read.injEq] at h
    obtain ⟨rfl, rfl⟩ := h
    have hdrive : t.bootDrive = v.bootDrive := by rw [bootDrive_lba2chs hchs]
    refine ⟨rfl, hdrive, ?_⟩
    rw [Chs.advance]
    split <;> exact hdrive

/-- What a pass does depends on what is left. -/
theorem pass_cases (h : AtChunk kernelSectors g k v) (hk : k ≤ 8) :
    kernelSectors.toNat = 16 * k ∧ readChsPass v = .done ∨
      kernelSectors.toNat ≠ 16 * k ∧ ∃ c w, readChsPass v = .read c w ∧ IsChunk g k c ∧
        (k < 8 → AtChunk kernelSectors g (k + 1) w) := by
  by_cases hleft : kernelSectors = .ofNat (16 * k)
  · refine .inl ⟨(ofNat_mul_eq_iff hk).mp hleft, ?_⟩
    have hzero : v.left = 0 := by
      rw [h.left, ← hleft, UInt16.sub_self]
    rw [readChsPass, if_pos hzero]
  · exact .inr ⟨mt (ofNat_mul_eq_iff hk).mpr hleft, h.pass hk hleft⟩

/-- **The ninth chunk, and only the ninth, would go to where stage 2 is.** -/
theorem overwrites_iff (hah : c.ah = 0x02) (hc : IsChunk g k c) : Overwrites c ↔ 8 ≤ k := by
  rw [Overwrites, hc.address, hc.count]
  constructor
  · rintro ⟨-, hlow, -⟩
    by_contra hk
    rw [if_pos (by omega)] at hlow
    omega
  · intro hk
    rw [if_neg (by omega)]
    exact ⟨hah, by decide, by decide⟩

/-- **The invariant of `read_chs`**: of the `calls`, those after `pre` are the `chunks`, all of them
have succeeded, and chunk `k` is next. -/
structure AfterChunks (kernelSectors : UInt16) (g : Geometry) (v : Chs)
    (pre chunks calls : List (Regs × Regs)) (k : ℕ) (vars : Chs) : Prop where
  next : AtChunk kernelSectors g k vars
  drive : vars.bootDrive = v.bootDrive
  rest : ∀ j, Boot.readChs kernelSectors v (k + j) = readChsCall vars j
  made : calls = pre ++ chunks
  ordered : Chunks kernelSectors v chunks
  length : chunks.length = k
  succeeded : ∀ p ∈ chunks, p.2.cf = false
  short : ∀ j < k, kernelSectors.toNat ≠ 16 * j

section
variable {calls : List (Regs × Regs)} {vars : Chs} {a r : Regs}

/-- The calls with one more. -/
theorem AfterChunks.call (h : AfterChunks kernelSectors g v pre chunks calls k vars)
    (hpass : readChsPass vars = .read c w) (ha : a.call = c) :
    calls ++ [(a, r)] = pre ++ (chunks ++ [(a, r)]) ∧
      Chunks kernelSectors v (chunks ++ [(a, r)]) := by
  obtain ⟨hah, hdl, -⟩ := readChsPass_drive hpass
  refine ⟨by rw [h.made, List.append_assoc],
    h.ordered.concat ⟨ha ▸ hah, ha ▸ hdl.trans h.drive⟩ ?_⟩
  have hcall := h.rest 0
  rw [readChsCall, hpass] at hcall
  rw [h.length, ha]
  exact hcall

/-- It has succeeded, and is not the ninth. -/
theorem AfterChunks.concat (h : AfterChunks kernelSectors g v pre chunks calls k vars)
    (hleft : kernelSectors.toNat ≠ 16 * k) (hpass : readChsPass vars = .read c w)
    (hnext : AtChunk kernelSectors g (k + 1) w) (ha : a.call = c) (hcf : r.cf = false) :
    AfterChunks kernelSectors g v pre (chunks ++ [(a, r)]) (calls ++ [(a, r)]) (k + 1) w where
  next := hnext
  drive := (readChsPass_drive hpass).2.2.trans h.drive
  rest j := by rw [Nat.add_right_comm, Nat.add_assoc, h.rest, readChsCall, hpass]
  made := (h.call hpass ha).1
  ordered := (h.call hpass ha).2
  length := by simp [h.length]
  succeeded p hp := by
    rcases List.mem_append.mp hp with hp | hp
    · exact h.succeeded p hp
    · exact List.mem_singleton.mp hp ▸ hcf
  short j hj := by
    rcases Nat.lt_succ_iff_lt_or_eq.mp hj with hj | rfl
    · exact h.short j hj
    · exact hleft

/-- It would be the ninth. -/
theorem AfterChunks.ninth (h : AfterChunks kernelSectors g v pre chunks calls k vars) (hk : 8 ≤ k)
    (hleft : kernelSectors.toNat ≠ 16 * k) :
    ¬(kernelSectors.toNat % 16 = 0 ∧ kernelSectors.toNat ≤ 128) := by
  rintro ⟨hmod, hle⟩
  rcases Nat.lt_or_eq_of_le (show kernelSectors.toNat / 16 ≤ k by omega) with hlt | heq
  · exact h.short _ hlt (by omega)
  · exact hleft (by omega)

/-- Nothing is left. -/
theorem AfterChunks.chunksRead (h : AfterChunks kernelSectors g v pre chunks calls k vars)
    (hk : k ≤ 8) (hleft : kernelSectors.toNat = 16 * k) : ChunksRead kernelSectors chunks := by
  have hlength := h.length
  exact ⟨by omega, by omega, by omega, h.succeeded⟩

end

section
variable {dev : Device bios} {L : Labels} {s : State} {h : Trace bios}

/-- The loop, from chunk `k` on. -/
theorem ensures_chunks {m : ℕ} {cs : List (UInt32 × Cpuid)} (hk : k ≤ 8) (hm : 9 ≤ m + k)
    (hat : AfterChunks kernelSectors g v pre chunks (diskCalls h) k s.vars)
    (hcpuids : cpuids h = cs) :
    Ensures dev (readChsLoop L m)
      (fun _ s' h' ↦ ChsEnd kernelSectors v pre (s'.cf = false)
        (fun chunks ↦ s'.cf = true → ChunksStop kernelSectors v chunks .halted) (diskCalls h') ∧
          cpuids h' = cs)
      (fun e h' ↦ ChsEnd kernelSectors v pre False (ChunksStop kernelSectors v · e)
        (diskCalls h')) s h := by
  induction m generalizing k s h chunks with
  | zero => omega
  | succ m ih =>
    rcases pass_cases hat.next hk with ⟨hleft, hdone⟩ | ⟨hleft, c, w, hpass, hc, hnext⟩
    · refine ensures_readChsLoop_done hdone fun s' hcf ↦ ?_
      exact ⟨⟨chunks, hat.made, hat.ordered, iff_of_true hcf (hat.chunksRead hk hleft),
        fun hcf' ↦ absurd (hcf.symm.trans hcf') Bool.false_ne_true⟩, hcpuids⟩
    · obtain ⟨hah, -, -⟩ := readChsPass_drive hpass
      refine ensures_readChsLoop_read hpass ?_ ?_ ?_
      · intro a r h' ha hcalls hover
        obtain ⟨hmade, hchunks⟩ := hat.call (r := r) hpass ha
        have hninth := (overwrites_iff hah hc).mp hover
        have hlength := hat.length
        refine ⟨_, hcalls.trans hmade, hchunks,
          iff_of_false id (not_chunksRead_concat (.inr (by omega))), ?_, hat.ninth hninth hleft⟩
        rw [List.length_append, List.length_singleton]
        omega
      · intro a s' h' ha hcalls hcpuids' hcf
        obtain ⟨hmade, hchunks⟩ := hat.call (r := s'.toRegs) hpass ha
        exact ⟨⟨_, hcalls.trans hmade, hchunks,
          iff_of_false (by simp [hcf]) (not_chunksRead_concat (.inl hcf)),
          fun _ ↦ ⟨_, List.mem_append_right _ (List.mem_singleton_self _), hcf⟩⟩,
          hcpuids'.trans hcpuids⟩
      · intro a r s' h' ha hcalls hcpuids' hover hcf hvars
        have hlt : k < 8 := Nat.lt_of_not_le (mt (overwrites_iff hah hc).mpr hover)
        have hafter := hat.concat hleft hpass (hnext hlt) ha hcf
        rw [← hcalls, ← hvars] at hafter
        exact ih hlt (by omega) hafter (hcpuids'.trans hcpuids)

/-- The geometry that `get_drive_params` stores, unless the sectors of a track are none. -/
theorem params_geometry (r : Regs) (v : Chs) : (r.params v).secsTrk = 0 ∨
    ∃ g : Geometry, (r.params v).secsTrk.toNat = g.secsTrk ∧
      (r.params v).heads.toNat = g.heads := by
  rw [Regs.params]
  split
  · exact .inr ⟨⟨2, 18, by decide, by decide, by decide, by decide⟩, rfl, rfl⟩
  have hheads : ((high r.dx).toUInt16 + 1).toNat = (high r.dx).toNat + 1 := by
    have hlt := (high r.dx).toNat_lt
    rw [UInt16.toNat_add, UInt8.toNat_toUInt16, show UInt16.toNat 1 = 1 from rfl]
    omega
  have hsecs : ((low r.cx).toUInt16 &&& 0x3F).toNat = (low r.cx).toNat % 64 := by
    rw [UInt16.toNat_and, UInt8.toNat_toUInt16]
    exact Nat.and_two_pow_sub_one_eq_mod _ 6
  by_cases hzero : (low r.cx).toNat % 64 = 0
  · left
    rw [← UInt16.toNat_inj, hsecs, hzero]
    rfl
  · have hlt := (high r.dx).toNat_lt
    exact .inr ⟨⟨_, _, Nat.succ_pos _, hlt, Nat.pos_of_ne_zero hzero, by omega⟩, hsecs, hheads⟩

/-- **`read_chs`** with what `get_drive_params` has stored. -/
theorem ensures_readChs {m : ℕ} {r : Regs} (hm : 9 ≤ m) (hs : s.vars = r.params w) :
    Ensures dev (readChs L kernelSectors m)
      (fun _ s' h' ↦ ChsEnd kernelSectors (r.params w) (diskCalls h) (s'.cf = false)
        (fun chunks ↦ s'.cf = true → ChunksStop kernelSectors (r.params w) chunks .halted)
        (diskCalls h') ∧ cpuids h' = cpuids h)
      (fun e h' ↦ ChsEnd kernelSectors (r.params w) (diskCalls h) False
        (ChunksStop kernelSectors (r.params w) · e) (diskCalls h')) s h := by
  refine ensures_bind (ensures_modify ?_)
  have hnone : Chunks kernelSectors (r.params w) [] := ⟨by simp, by simp⟩
  rcases params_geometry r w with hsecs | ⟨g, hsecs, hheads⟩
  · obtain ⟨m, rfl⟩ := Nat.exists_eq_add_of_le' hm
    have hstart : (readChsStart kernelSectors s.vars).left = kernelSectors := rfl
    have hfault : lba2chs { readChsStart kernelSectors s.vars with cnt := 16 } = none := by
      rw [lba2chs, divWord, if_pos (.inl (by rw [hs]; exact hsecs))]
      rfl
    by_cases hzero : kernelSectors = 0
    · have hdone : readChsPass (readChsStart kernelSectors s.vars) = .done := by
        rw [readChsPass, if_pos (hstart.trans hzero)]
      refine ensures_readChsLoop_done hdone fun s' hcf ↦ ⟨⟨[], (List.append_nil _).symm, hnone, ?_,
        fun hcf' ↦ absurd (hcf.symm.trans hcf') Bool.false_ne_true⟩, rfl⟩
      subst hzero
      exact iff_of_true hcf ⟨rfl, by decide, rfl, by simp⟩
    · refine ensures_readChsLoop_fault (readChsPass_fault (hstart.trans_ne hzero) hfault)
        fun h' hcalls ↦
          ⟨[], by rw [hcalls, List.append_nil], hnone, iff_of_false id ?_, hzero, hsecs⟩
      rintro ⟨hmod, -, hlength, -⟩
      rw [List.length_nil] at hlength
      exact hzero (UInt16.toNat_inj.mp (by rw [UInt16.toNat_zero]; omega))
  · have hat : AfterChunks kernelSectors g (r.params w) (diskCalls h) [] (diskCalls h) 0
        (readChsStart kernelSectors s.vars) := by
      refine ⟨⟨rfl, by simp [readChsStart], rfl, rfl, ?_, ?_⟩, by rw [hs]; rfl, fun j ↦ ?_,
        (List.append_nil _).symm, hnone, rfl, by simp, by simp⟩
      · rw [← hheads, hs]
        rfl
      · rw [← hsecs, hs]
        rfl
      · rw [Nat.zero_add, hs]
        rfl
    exact ensures_chunks (Nat.zero_le 8) hm hat rfl

end

/-! ## The whole way -/

/-- After `pre` these calls have been made, all for the boot drive, and the kernel is there if
`ok`. -/
def Loads (kernelSectors : UInt16) (v : Chs) (pre : List (Regs × Regs)) (ok : Prop)
    (note : List (Regs × Regs) → Prop) (calls : List (Regs × Regs)) : Prop :=
  ∃ new, calls = pre ++ new ∧ (∀ p ∈ new, p.1.call.dl = v.bootDrive) ∧
    Chunks kernelSectors v (reads new) ∧ (ok ↔ KernelRead kernelSectors new) ∧ note (reads new)

/-- After calls that have not read the kernel, chunks are read. -/
theorem ChsEnd.loads {tried calls : List (Regs × Regs)} {ok : Prop}
    {note : List (Regs × Regs) → Prop} (h : ChsEnd kernelSectors v (pre ++ tried) ok note calls)
    (hdrive : ∀ p ∈ tried, p.1.call.dl = v.bootDrive)
    (htried : ∀ p ∈ tried, p.1.call.ah ≠ 0x02 ∧ (p.1.call.ah = 0x42 → p.2.cf)) :
    Loads kernelSectors v pre ok note calls := by
  obtain ⟨chunks, rfl, hchunks, hok, hnote⟩ := h
  obtain ⟨hreads, hread⟩ : reads (tried ++ chunks) = chunks ∧
      (KernelRead kernelSectors (tried ++ chunks) ↔ ChunksRead kernelSectors chunks) :=
    kernelRead_append htried fun p hp ↦ (hchunks.isCall p hp).1
  refine ⟨tried ++ chunks, List.append_assoc .., fun p hp ↦ ?_,
    by rwa [hreads], hok.trans hread.symm, by rwa [hreads]⟩
  rcases List.mem_append.mp hp with hp | hp
  · exact hdrive p hp
  · exact (hchunks.isCall p hp).2

/-- **What has happened when a run stops short of protected mode**: there is no long mode or a chunk
has failed, and a message says so; or the BIOS has reported tracks without sectors, and the kernel
was to be read in chunks; or the ninth chunk has been asked for, for a kernel that is not a number
of whole chunks up to eight.  The loop of `read_chs` comes to its end. -/
def Stop.Cause (kernelSectors : UInt16) (v : Chs) (t : Trace bios) : Stop → Prop
  | .halted => ¬HasLongMode (cpuids t) ∨ ∃ p ∈ reads (diskCalls t), p.2.cf = true
  | .divideError => kernelSectors ≠ 0 ∧ ∃ r,
      (diskCalls t).head?.map Prod.snd = some r ∧ (r.params v).secsTrk = 0
  | .overwritten => (reads (diskCalls t)).length = 9 ∧
      ¬(kernelSectors.toNat % 16 = 0 ∧ kernelSectors.toNat ≤ 128)
  | .endless => False

/-- **How a run has ended**, and what it has asked for. -/
structure Ends (kernelSectors : UInt16) (v : Chs) (entered : Prop) (t : Trace bios) : Prop where
  /-- Every call is for the boot drive. -/
  drive : ∀ p ∈ diskCalls t, p.1.call.dl = v.bootDrive
  /-- The chunks are those of `read_chs`, with the geometry from the reply to the first call. -/
  chunks : ∀ j p, (reads (diskCalls t))[j]? = some p → ∃ r,
    (diskCalls t).head?.map Prod.snd = some r ∧
      Boot.readChs kernelSectors (r.params v) j = some p.1.call
  /-- It has got to protected mode exactly if it should. -/
  entered : entered ↔ HasLongMode (cpuids t) ∧ KernelRead kernelSectors (diskCalls t)

section
variable {dev : Device bios} {L : Labels} {s : State} {h : Trace bios}

theorem ensures_useChs {m : ℕ} {r : Regs} {tried : List (Regs × Regs)} (hm : 9 ≤ m)
    (hs : s.vars = r.params w) (hcalls : diskCalls h = pre ++ tried)
    (hdrive : ∀ p ∈ tried, p.1.call.dl = (r.params w).bootDrive)
    (htried : ∀ p ∈ tried, p.1.call.ah ≠ 0x02 ∧ (p.1.call.ah = 0x42 → p.2.cf)) :
    Ensures dev (useChs L kernelSectors m)
      (fun _ _ h' ↦ Loads kernelSectors (r.params w) pre True (fun _ ↦ True) (diskCalls h') ∧
        cpuids h' = cpuids h)
      (fun e h' ↦ Loads kernelSectors (r.params w) pre False
        (ChunksStop kernelSectors (r.params w) · e) (diskCalls h')) s h := by
  refine ensures_bind ((isQuiet_dbgPutc L .chsFb).ensures fun _ s₁ h₁ hs₁ ↦ ensures_bind ?_)
  refine (ensures_readChs hm (hs₁.vars.trans hs)).mono (fun _ s₂ h₂ hend ↦ ?_) fun _ h₂ hend ↦ ?_
  · obtain ⟨hend, hcpuids₂⟩ := hend
    rw [hs₁.calls, hcalls] at hend
    refine ensures_bind (ensures_get (ensures_ite (fun hcf ↦ ?_) fun hcf ↦ ?_))
    · rw [hcf] at hend
      refine ensures_die fun h' hcalls' _ ↦ ?_
      have hloads := hend.loads hdrive htried
      rw [hcalls']
      simpa only [Bool.true_eq_false, true_implies] using hloads
    · rw [Bool.eq_false_iff.mpr hcf] at hend
      refine (isQuiet_dbgPutc L .chsDone).ensures fun _ s₃ h₃ hs₃ ↦ ⟨?_, ?_⟩
      · have hloads := hend.loads hdrive htried
        rw [hs₃.calls]
        simpa only [eq_self, Bool.false_eq_true, false_implies] using hloads
      · exact hs₃.cpuids.trans (hcpuids₂.trans hs₁.cpuids)
  · rw [hs₁.calls, hcalls] at hend
    exact hend.loads hdrive htried

theorem ensures_loadKernel {m : ℕ} {r : Regs} (hm : 9 ≤ m) (hs : s.vars = r.params w) :
    Ensures dev (loadKernel L kernelSectors m)
      (fun _ _ h' ↦ Loads kernelSectors (r.params w) (diskCalls h) True (fun _ ↦ True)
        (diskCalls h') ∧ cpuids h' = cpuids h)
      (fun e h' ↦ Loads kernelSectors (r.params w) (diskCalls h) False
        (ChunksStop kernelSectors (r.params w) · e) (diskCalls h')) s h := by
  refine ensures_bind (ensures_checkLba fun lba c₁ r₁ s₁ h₁ hc₁ hcalls₁ hcpuids₁ hvars₁ ↦ ?_)
  rw [hs] at hc₁
  have hcheck : c₁.call.ah ≠ 0x02 ∧ (c₁.call.ah = 0x42 → r₁.cf) :=
    ⟨by rw [hc₁.1]; decide, fun h42 ↦ absurd (hc₁.1.symm.trans h42) (by decide)⟩
  refine ensures_ite (fun _ ↦ ?_) fun _ ↦ ?_
  · refine ensures_bind (ensures_readLba fun c₂ r₂ s₂ h₂ hc₂ hcalls₂ hcpuids₂ hvars₂ ↦ ?_)
    rw [hvars₁, hs] at hc₂
    rw [hcalls₁, List.append_assoc, List.singleton_append] at hcalls₂
    have hne : c₂.call.ah ≠ 0x02 := by
      rw [hc₂.1]
      decide
    have hdrive : ∀ p ∈ [(c₁, r₁), (c₂, r₂)], p.1.call.dl = (r.params w).bootDrive := by
      simp [hc₁.2, hc₂.2]
    refine ensures_ite (fun hread ↦ ensures_pure ?_) fun hread ↦ ?_
    · have hcf : r₂.cf = false := by simpa using hread
      have hreads : reads [(c₁, r₁), (c₂, r₂)] = [] := by simp [reads, hcheck.1, hne]
      refine ⟨⟨_, hcalls₂, hdrive, ?_, iff_of_true trivial ?_, trivial⟩,
        hcpuids₂.trans hcpuids₁⟩
      · rw [hreads]
        exact ⟨by simp, by simp⟩
      · exact .inl ⟨(c₂, r₂), by simp, hc₂.1, hcf⟩
    · have hcf : r₂.cf = true := by simpa using hread
      rw [← hcpuids₁, ← hcpuids₂]
      refine ensures_useChs hm (hvars₂.trans (hvars₁.trans hs)) hcalls₂ hdrive fun p hp ↦ ?_
      rcases List.mem_pair.mp hp with rfl | rfl
      · exact hcheck
      · exact ⟨hne, fun _ ↦ hcf⟩
  · rw [← hcpuids₁]
    refine ensures_useChs hm (hvars₁.trans hs) hcalls₁ (fun p hp ↦ ?_) fun p hp ↦ ?_
    · exact List.mem_singleton.mp hp ▸ hc₁.2
    · exact List.mem_singleton.mp hp ▸ hcheck

theorem bootDrive_params (r : Regs) (v : Chs) : (r.params v).bootDrive = v.bootDrive := by
  rw [Regs.params]
  split <;> rfl

/-- The call for the geometry reads nothing. -/
theorem reads_geometry {a r : Regs} (ha : IsCall 0x08 v a) (new : List (Regs × Regs)) :
    reads ([(a, r)] ++ new) = reads new := by
  rw [reads_append, reads, List.filter_cons_of_neg (by simp [ha.1])]
  rfl

/-- After the call for the geometry. -/
theorem Loads.ends {a r : Regs} {t : Trace bios} {ok : Prop} {note : List (Regs × Regs) → Prop}
    (ha : IsCall 0x08 v a) (h : Loads kernelSectors (r.params v) [(a, r)] ok note (diskCalls t))
    (hlong : ok → HasLongMode (cpuids t)) : Ends kernelSectors v ok t := by
  obtain ⟨new, hcalls, hdrive, hchunks, hok, -⟩ := h
  have hreads : reads (diskCalls t) = reads new := by rw [hcalls, reads_geometry ha]
  refine ⟨fun p hp ↦ ?_, fun j p hp ↦ ⟨r, ?_, ?_⟩, ?_⟩
  · rw [hcalls] at hp
    rcases List.mem_append.mp hp with hp | hp
    · exact List.mem_singleton.mp hp ▸ ha.2
    · exact (hdrive p hp).trans (bootDrive_params r v)
  · rw [hcalls]
    rfl
  · exact hchunks.call j p (hreads ▸ hp)
  · have hread : KernelRead kernelSectors (diskCalls t) ↔ KernelRead kernelSectors new := by
      rw [KernelRead, KernelRead, hreads, hcalls]
      simp [ha.1]
    rw [hread, ← hok]
    exact ⟨fun h ↦ ⟨hlong h, h⟩, And.right⟩

/-- And why it has stopped. -/
theorem Loads.cause {a r : Regs} {t : Trace bios} {e : Stop} (ha : IsCall 0x08 v a)
    (h : Loads kernelSectors (r.params v) [(a, r)] False
      (ChunksStop kernelSectors (r.params v) · e) (diskCalls t)) : e.Cause kernelSectors v t := by
  obtain ⟨new, hcalls, -, -, -, hstop⟩ := h
  have hreads : reads (diskCalls t) = reads new := by rw [hcalls, reads_geometry ha]
  have hreply : (diskCalls t).head?.map Prod.snd = some r := by
    rw [hcalls]
    rfl
  cases e with
  | halted => exact .inr (hreads ▸ hstop)
  | divideError => exact ⟨hstop.1, r, hreply, hstop.2⟩
  | overwritten =>
    rw [Stop.Cause, hreads]
    exact hstop
  | endless => exact hstop

/-- The call for the geometry is the only one on a processor without long mode. -/
theorem ends_of_not_hasLongMode {a r : Regs} {t : Trace bios} (ha : IsCall 0x08 v a)
    (hcalls : diskCalls t = [(a, r)]) (hlong : ¬HasLongMode (cpuids t)) :
    Ends kernelSectors v False t := by
  have hreads : reads (diskCalls t) = [] := by simp [hcalls, reads, ha.1]
  refine ⟨fun p hp ↦ ?_, fun j p hp ↦ ?_, iff_of_false id fun h ↦ hlong h.1⟩
  · rw [hcalls] at hp
    exact List.mem_singleton.mp hp ▸ ha.2
  · rw [hreads] at hp
    cases hp

theorem isQuiet_enter (L : Labels) : IsQuiet (enter L) := by
  have hcr0 : IsQuiet movFromCr0 := isQuiet_ask (fun _ ↦ rfl) fun _ ↦ rfl
  refine (isQuiet_dbgPutc L .pmGdt).bind fun _ ↦ (isQuiet_emit _).bind fun _ ↦
    (isQuiet_dbgPutc L .pmCr0).bind fun _ ↦ hcr0.bind fun _ ↦ ?_
  exact isQuiet_modify_then (fun _ ↦ rfl) (isQuiet_emit _)

theorem ensures_start {drive : UInt8} {Q : Unit → State → Trace bios → Prop}
    {E : Stop → Trace bios → Prop}
    (hQ : ∀ s', s'.vars = { s.vars with bootDrive := drive } → Q () s' h) :
    Ensures dev (start drive) Q E s h := by
  refine ensures_bind (ensures_modify (ensures_bind (ensures_modify (ensures_bind (ensures_modify
    (ensures_modify (hQ _ ?_)))))))
  simp only [low_setLow]

/-- **The run of stage 2**, from any state. -/
theorem ensures_stage2 (L : Labels) (kernelSectors : UInt16) (n : ℕ) (drive : UInt8)
    (dev : Device bios) (s : State) :
    let v := { s.vars with bootDrive := drive }
    Ensures dev (stage2 L kernelSectors (n + 9) drive) (fun _ _ h' ↦ Ends kernelSectors v True h')
      (fun e h' ↦ Ends kernelSectors v False h' ∧ e.Cause kernelSectors v h') s [] := by
  intro v
  refine ensures_bind (ensures_start fun s₀ hvars₀ ↦ ensures_bind (ensures_getDriveParams ?_))
  intro a r s₁ h₁ ha hcalls₁ hcpuids₁ hvars₁
  rw [hvars₀] at ha hvars₁
  refine ensures_bind ((isQuiet_dbgPutc L .entry).ensures fun _ s₂ h₂ hs₂ ↦ ensures_bind
    ((isQuiet_dbgPutc L .cpuChk).ensures fun _ s₃ h₃ hs₃ ↦ ?_))
  have hs := hs₂.trans hs₃
  refine ensures_bind (ensures_checkCpu64 (hs.cpuids.trans hcpuids₁) ?_)
  intro s₄ h₄ hvars₄ hcalls₄ hlong
  have hcalls : diskCalls h₄ = [(a, r)] := hcalls₄.trans (hs.calls.trans hcalls₁)
  refine ensures_bind (ensures_get (ensures_ite (fun hcf ↦ ?_) fun hcf ↦ ?_))
  · refine ensures_die fun h' hcalls' hcpuids' ↦ ?_
    have hnot : ¬HasLongMode (cpuids h') := by
      rw [hcpuids', ← hlong, hcf]
      exact Bool.true_eq_false.mp
    exact ⟨ends_of_not_hasLongMode ha (hcalls'.trans hcalls) hnot, .inl hnot⟩
  have hmode := hlong.mp (Bool.eq_false_iff.mpr hcf)
  refine ensures_bind ((isQuiet_dbgPutc L .cpuOk).ensures fun _ s₅ h₅ hs₅ ↦ ensures_bind ?_)
  have hvars₅ : s₅.vars = r.params v :=
    hs₅.vars.trans (hvars₄.trans (hs.vars.trans hvars₁))
  have hload : Ensures dev (loadKernel L kernelSectors (n + 9)) _ _ s₅ h₅ :=
    ensures_loadKernel (Nat.le_add_left 9 n) hvars₅
  rw [hs₅.calls, hcalls] at hload
  refine hload.mono (fun _ s₆ h₆ hend ↦ ?_) fun e h₆ hend ↦ ?_
  · obtain ⟨hload, hcpuids₆⟩ := hend
    refine (isQuiet_enter L).ensures fun _ s₇ h₇ hs₇ ↦ ?_
    refine Loads.ends ha (hs₇.calls ▸ hload) fun _ ↦ ?_
    rwa [hs₇.cpuids, hcpuids₆, hs₅.cpuids]
  · exact ⟨hend.ends ha False.elim, hend.cause ha⟩

/-- **Stage 2 gets to protected mode exactly if it should**, from any state, for a kernel of any
size, whatever the BIOS and the processor answer: exactly if there is long mode, and the packet or
all the chunks have been read without an error.  All disk calls are for the boot drive.  Nine passes
through the loop of `read_chs` are always enough, and a run that does not get to protected mode has
stopped for a reason. -/
theorem stage2_enters_iff (L : Labels) (kernelSectors : UInt16) (n : ℕ) (drive : UInt8)
    (dev : Device bios) (s : State) :
    let c := ((stage2 L kernelSectors (n + 9) drive).run s).run
    let v := { s.vars with bootDrive := drive }
    Ends kernelSectors v (∃ r, c.value dev [] = .ok r) (c.trace dev []) ∧
      ∀ e, c.value dev [] = .error e → e.Cause kernelSectors v (c.trace dev []) := by
  intro c v
  have hends := ensures_stage2 L kernelSectors n drive dev s [] rfl
  rw [List.nil_append] at hends
  change Exits _ _ (c.value dev []) at hends
  cases hvalue : c.value dev [] with
  | error e =>
    rw [hvalue] at hends
    have hnone : ¬∃ r, (Except.error e : Except Stop (Unit × State)) = .ok r := by simp
    refine ⟨by rw [iff_false_intro hnone]; exact hends.1, fun e' he' ↦ ?_⟩
    exact Except.error.inj he' ▸ hends.2
  | ok r =>
    rw [hvalue] at hends
    have hsome : ∃ r', (Except.ok r : Except Stop (Unit × State)) = .ok r' := ⟨r, rfl⟩
    exact ⟨by rwa [iff_true_intro hsome], fun e he ↦ by cases he⟩

end

end Aetherion.Boot.Stage2
