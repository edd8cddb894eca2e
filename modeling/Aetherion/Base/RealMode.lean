import Aetherion.Base.Driver
import Aetherion.Base.Ram
import Aetherion.Base.Words
import Mathlib.Logic.Function.Basic

/-!
# Programs in real mode

A program that runs on the BIOS: its state is the processor and the memory (`RealMode.Cpu`), and it
depends on the outside through the ports and through `INT`, after which almost everything can be
different.  What can not is the calling convention, `RealMode.Kept`: the segments of the data and
the stack, the stack pointer, most of the time DL, and the memory from the stack pointer up to the
end of the program.

`RealMode.Wp` is the weakest precondition of such a program over all replies.  The unit of reasoning
is `RealMode.Balanced`: a piece of code leaves the stack as it was, and what is on it.  A value that
is pushed before such a piece comes back with the `pop` behind it (`Balanced.pop`), so a `call` of
a balanced body returns, and is balanced itself (`wp_call`).
-/

set_option autoImplicit false

namespace RealMode

open Driver

/-! ## The processor -/

/-- The linear address of an offset in a segment. -/
def linear (seg off : UInt16) : ℕ := 16 * seg.toNat + off.toNat

/-- The registers and the memory.  The carry flag is the one that the last `INT` has left. -/
structure Cpu where
  ax : UInt16
  bx : UInt16
  cx : UInt16
  dx : UInt16
  si : UInt16
  di : UInt16
  sp : UInt16
  ds : UInt16
  es : UInt16
  ss : UInt16
  cf : Bool
  ram : Ram

/-- The lower half of a register, such as AL. -/
def low (r : UInt16) : UInt8 := r.toUInt8

/-- The upper half of a register, such as AH. -/
def high (r : UInt16) : UInt8 := (r >>> 8).toUInt8

/-- Write to the lower half of a register. -/
def setLow (r : UInt16) (v : UInt8) : UInt16 := (r &&& 0xFF00) ||| v.toUInt16

/-- Write to the upper half of a register. -/
def setHigh (r : UInt16) (v : UInt8) : UInt16 := (r &&& 0x00FF) ||| (v.toUInt16 <<< (8 : UInt16))

/-- `div` of DX:AX by a word: the quotient and the remainder, unless there is a divide error. -/
def divWord (dx ax d : UInt16) : Option (UInt16 × UInt16) :=
  let n := 65536 * dx.toNat + ax.toNat
  if d = 0 ∨ 65536 ≤ n / d.toNat then none
  else some (.ofNat (n / d.toNat), .ofNat (n % d.toNat))

namespace Cpu

def load8 (s : Cpu) (seg off : UInt16) : UInt8 := s.ram (linear seg off)

def load16 (s : Cpu) (seg off : UInt16) : UInt16 :=
  Words.ofBytes16 (s.load8 seg off) (s.load8 seg (off + 1))

def store8 (seg off : UInt16) (v : UInt8) (s : Cpu) : Cpu :=
  { s with ram := Function.update s.ram (linear seg off) v }

def store16 (seg off v : UInt16) (s : Cpu) : Cpu :=
  (s.store8 seg off (low v)).store8 seg (off + 1) (high v)

def push (v : UInt16) (s : Cpu) : Cpu := { s with sp := s.sp - 2 }.store16 s.ss (s.sp - 2) v

@[simp] theorem push_ds (v : UInt16) (s : Cpu) : (s.push v).ds = s.ds := rfl

/-- What `pop` takes from the stack. -/
def top (s : Cpu) : UInt16 := s.load16 s.ss s.sp

/-- The stack without it. -/
def drop (s : Cpu) : Cpu := { s with sp := s.sp + 2 }

end Cpu

/-! ## Programs -/

/-- What a call of the BIOS leaves as it was, for a program that ends at `fin`.  Only `INT 13h`
AH=08h returns something in DL. -/
structure Kept (fin : ℕ) (n : UInt8) (s s' : Cpu) : Prop where
  ds : s'.ds = s.ds
  ss : s'.ss = s.ss
  sp : s'.sp = s.sp
  dl : ¬(n = 0x13 ∧ high s.ax = 0x08) → low s'.dx = low s.dx
  ram : ∀ x, linear s.ss s.sp ≤ x → x < fin → s'.ram x = s.ram x

/-- A write to a port. -/
inductive Out where
  | outb : UInt16 → UInt8 → Out

/-- A read from a port, and a software interrupt. -/
inductive In where
  | inb : UInt16 → In
  | int : UInt8 → Cpu → In

/-- The outside of a program that ends at `fin`. -/
def bios (fin : ℕ) : Iface where
  Out := Out
  In := In
  Reply
    | .inb _ => UInt8
    | .int n s => { s' : Cpu // Kept fin n s s' }

/-- Why a program does not go on. -/
inductive Stop where
  /-- It has executed `hlt`. -/
  | halted : Stop
  /-- A divide error. -/
  | divideError : Stop
  /-- It is in an endless loop. -/
  | endless : Stop
  /-- A `ret` has gone somewhere else than behind the call. -/
  | stray : Stop

/-- A program with a result. -/
abbrev Code (fin : ℕ) (α : Type) := StateT Cpu (ExceptT Stop (Prog (bios fin))) α

variable {fin : ℕ} {α β : Type}

def inb (port : UInt16) : Code fin UInt8 := fun s ↦
  ExceptT.mk do
    let v ← Prog.ask (F := bios fin) (.inb port)
    return .ok (v, s)

def outb (port : UInt16) (v : UInt8) : Code fin Unit := fun s ↦
  ExceptT.mk do
    Prog.emit (F := bios fin) (.outb port v)
    return .ok ((), s)

def int (n : UInt8) : Code fin Unit := fun s ↦
  ExceptT.mk do
    let s' ← Prog.ask (F := bios fin) (.int n s)
    return .ok ((), s'.val)

def stop (reason : Stop) : Code fin α := throw reason

def push (v : UInt16) : Code fin Unit := modify (Cpu.push v)

def pop : Code fin UInt16 := do
  let s ← get
  set s.drop
  return s.top

/-- A call that pushes `ret`, and is to go on at `next`. -/
def call (ret next : UInt16) (body : Code fin Unit) : Code fin Unit := do
  push ret
  body
  let ip ← pop
  if ip = next then pure () else stop .stray

/-! ## Weakest preconditions -/

/-- Whatever the outside does, the program never returns to a wrong place, and if it comes to its
end then `Q` is true. -/
def Wp (c : Code fin α) (Q : α → Cpu → Prop) (s : Cpu) : Prop :=
  ∀ dev, Prog.Returns dev (Prog.Exits (· ≠ Stop.stray) fun r : α × Cpu ↦ Q r.1 r.2) (c.run s).run

variable {c : Code fin α} {f : α → Code fin β} {Q R : α → Cpu → Prop} {Q' : β → Cpu → Prop}
  {s s' : Cpu}

theorem Wp.mono (h : Wp c R s) (hQ : ∀ a s', R a s' → Q a s') : Wp c Q s := fun dev ↦
  (h dev).mono fun r hr ↦ by
    cases r with
    | error e => exact hr
    | ok r => exact hQ _ _ hr

theorem wp_pure {a : α} (h : Q a s) : Wp (pure a : Code fin α) Q s := fun _ ↦ Prog.returns_pure h

theorem wp_bind (h : Wp c (fun a ↦ Wp (f a) Q') s) : Wp (c >>= f) Q' s := fun dev ↦
  (h dev).bind fun r hr ↦ by
    cases r with
    | error e => exact Prog.returns_pure hr
    | ok r => exact hr dev

theorem wp_get {Q : Cpu → Cpu → Prop} (h : Q s s) : Wp (get : Code fin Cpu) Q s :=
  fun _ ↦ Prog.returns_pure h

theorem wp_modify {Q : Unit → Cpu → Prop} {g : Cpu → Cpu} (h : Q () (g s)) :
    Wp (modify g : Code fin Unit) Q s := fun _ ↦ Prog.returns_pure h

/-- The state is forgotten, but for what is needed of it. -/
theorem wp_modify_of {Q : Unit → Cpu → Prop} {g : Cpu → Cpu} (P : Cpu → Prop) (hP : P (g s))
    (h : ∀ t, P t → Q () t) : Wp (modify g : Code fin Unit) Q s := wp_modify (h _ hP)

theorem wp_push {Q : Unit → Cpu → Prop} {v : UInt16} (h : Q () (s.push v)) :
    Wp (push v : Code fin Unit) Q s := wp_modify h

theorem wp_pop {Q : UInt16 → Cpu → Prop} (h : Q s.top s.drop) : Wp (pop : Code fin UInt16) Q s :=
  fun _ ↦ Prog.returns_pure h

theorem wp_stop {reason : Stop} (h : reason ≠ .stray) : Wp (stop reason : Code fin α) Q s :=
  fun _ ↦ Prog.returns_pure h

theorem wp_inb {Q : UInt8 → Cpu → Prop} {port : UInt16} (h : ∀ v, Q v s) :
    Wp (inb port : Code fin UInt8) Q s := fun _ ↦
  Prog.returns_then fun v ↦ Prog.returns_pure (h v)

theorem wp_outb {Q : Unit → Cpu → Prop} {port : UInt16} {v : UInt8} (h : Q () s) :
    Wp (outb port v : Code fin Unit) Q s := fun _ ↦ Prog.returns_then fun _ ↦ Prog.returns_pure h

theorem wp_int {Q : Unit → Cpu → Prop} {n : UInt8} (h : ∀ s', Kept fin n s s' → Q () s') :
    Wp (int n : Code fin Unit) Q s := fun _ ↦
  Prog.returns_then fun s' ↦ Prog.returns_pure (h s'.val s'.property)

theorem wp_ite {p : Prop} [Decidable p] {c d : Code fin α} (hc : p → Wp c Q s)
    (hd : ¬p → Wp d Q s) : Wp (if p then c else d) Q s := by
  split
  · exact hc ‹_›
  · exact hd ‹_›

@[simp] theorem low_setLow (r : UInt16) (v : UInt8) : low (setLow r v) = v := by
  rw [low, setLow, UInt16.toUInt8_or, UInt16.toUInt8_and, UInt8.toUInt8_toUInt16,
    show UInt16.toUInt8 0xFF00 = 0 from rfl, UInt8.and_zero, UInt8.zero_or]

theorem toNat_low_ofNat {n : ℕ} (hn : n < 256) : (low (.ofNat n)).toNat = n := by
  rw [low, UInt16.toNat_toUInt8, UInt16.toNat_ofNat']
  omega

theorem toNat_high (r : UInt16) : (high r).toNat = r.toNat / 256 := by
  have hr := r.toNat_lt
  rw [high, UInt16.toNat_toUInt8, UInt16.toNat_shiftRight, show UInt16.toNat 8 % 16 = 8 from rfl,
    Nat.shiftRight_eq_div_pow]
  omega

theorem toNat_setHigh (r : UInt16) (v : UInt8) :
    (setHigh r v).toNat = 256 * v.toNat + r.toNat % 256 := by
  have hv := v.toNat_lt
  have hlow : r.toNat &&& 255 = r.toNat % 256 := Words.and_ff r.toNat
  rw [setHigh, UInt16.toNat_or, UInt16.toNat_and, UInt16.toNat_shiftLeft, UInt8.toNat_toUInt16,
    show UInt16.toNat 8 % 16 = 8 from rfl, show UInt16.toNat 0x00FF = 255 from rfl, hlow,
    Nat.shiftLeft_eq, Nat.or_comm, Words.or_eq_add 8 (by omega) (by omega)]
  omega

@[simp] theorem high_setHigh (r : UInt16) (v : UInt8) : high (setHigh r v) = v := by
  rw [← UInt8.toNat_inj, toNat_high, toNat_setHigh]
  omega

@[simp] theorem low_setHigh (r : UInt16) (v : UInt8) : low (setHigh r v) = low r := by
  rw [← UInt8.toNat_inj, low, low, UInt16.toNat_toUInt8, UInt16.toNat_toUInt8, toNat_setHigh]
  omega

@[simp] theorem high_setLow (r : UInt16) (v : UInt8) : high (setLow r v) = high r := by
  have hv : v.toNat >>> 8 = 0 := Nat.shiftRight_eq_zero _ _ v.toNat_lt
  rw [← UInt8.toNat_inj, high, high, setLow]
  simp only [UInt16.toNat_toUInt8, UInt16.toNat_shiftRight, UInt16.toNat_or, UInt16.toNat_and,
    UInt8.toNat_toUInt16, show UInt16.toNat 8 % 16 = 8 from rfl, Nat.shiftRight_or_distrib,
    Nat.shiftRight_and_distrib, show UInt16.toNat 0xFF00 >>> 8 = 255 from rfl, hv, Nat.or_zero,
    Words.and_ff]
  omega

/-! ## One call of the BIOS -/

/-- The only exchange of the code is `INT n`, called with these registers. -/
def Calls (c : Code fin α) (n : UInt8) (r s : Cpu) : Prop :=
  ∀ dev h, (c.run s).run.trace dev h = [.inp (.int n r) (dev h (.int n r))]

theorem calls_int (n : UInt8) (s : Cpu) : Calls (int n : Code fin Unit) n s s := fun _ _ ↦ rfl

/-- The code ends with this, and without an exchange. -/
def Silent (c : Code fin α) (a : α) (s s' : Cpu) : Prop :=
  ∀ dev h, (c.run s).run dev h = (.ok (a, s'), [])

theorem silent_modify (g : Cpu → Cpu) (s : Cpu) : Silent (modify g : Code fin Unit) () s (g s) :=
  fun _ _ ↦ rfl

theorem silent_get {f : Cpu → Code fin α} {a : α} {s s' : Cpu} (h : Silent (f s) a s s') :
    Silent (do let t ← get; f t) a s s' :=
  fun dev t ↦ h dev (t ++ [])

/-- Such code before it. -/
theorem calls_silent {β : Type} {c : Code fin β} {f : β → Code fin α} {b : β} {n : UInt8}
    {r s s' : Cpu} (hc : Silent c b s s') (h : Calls (f b) n r s') : Calls (c >>= f) n r s := by
  intro dev t
  change Prog.trace ((c.run s).run >>= _) dev t = _
  rw [Prog.trace_bind, Prog.value, Prog.trace, hc, List.append_nil, List.nil_append]
  exact h dev t

theorem calls_modify {g : Cpu → Cpu} {rest : Code fin α} {n : UInt8} {r s : Cpu}
    (h : Calls rest n r (g s)) : Calls (do modify g; rest) n r s :=
  calls_silent (silent_modify g s) h

/-! ## The stack -/

/-- There is room for `n` bytes on the stack, and it lies below the end of the program, and below
what is `free` for the program to write to. -/
structure Room (free : ℕ → Prop) (fin n : ℕ) (s : Cpu) : Prop where
  le_sp : n ≤ s.sp.toNat
  le_fin : linear s.ss s.sp ≤ fin
  le_free : ∀ x, free x → linear s.ss s.sp ≤ x

/-- The stack is as it was, with all that is on it, and so is the program, but for what is `free`
for it to write to. -/
structure Balanced (free : ℕ → Prop) (fin : ℕ) (s s' : Cpu) : Prop where
  ds : s'.ds = s.ds
  ss : s'.ss = s.ss
  sp : s'.sp = s.sp
  ram : ∀ x, linear s.ss s.sp ≤ x → x < fin → ¬free x → s'.ram x = s.ram x

variable {free : ℕ → Prop} {n : ℕ} {v : UInt16} {s'' : Cpu}

theorem Balanced.refl (s : Cpu) : Balanced free fin s s := ⟨rfl, rfl, rfl, fun _ _ _ _ ↦ rfl⟩

theorem Balanced.trans (h : Balanced free fin s s') (h' : Balanced free fin s' s'') :
    Balanced free fin s s'' where
  ds := h'.ds.trans h.ds
  ss := h'.ss.trans h.ss
  sp := h'.sp.trans h.sp
  ram x hlow hfin hfree :=
    (h'.ram x (by rwa [h.ss, h.sp]) hfin hfree).trans (h.ram x hlow hfin hfree)

theorem Kept.balanced {k : UInt8} (h : Kept fin k s s') : Balanced free fin s s' :=
  ⟨h.ds, h.ss, h.sp, fun x hlow hfin _ ↦ h.ram x hlow hfin⟩

/-- Only general registers are different. -/
structure Scratch (s s' : Cpu) : Prop where
  ds : s'.ds = s.ds
  ss : s'.ss = s.ss
  sp : s'.sp = s.sp
  ram : s'.ram = s.ram

theorem Scratch.refl (s : Cpu) : Scratch s s := ⟨rfl, rfl, rfl, rfl⟩

theorem Scratch.trans {t : Cpu} (h : Scratch s s') (h' : Scratch s' t) : Scratch s t :=
  ⟨h'.ds.trans h.ds, h'.ss.trans h.ss, h'.sp.trans h.sp, h'.ram.trans h.ram⟩

theorem Scratch.balanced (h : Scratch s s') : Balanced free fin s s' :=
  ⟨h.ds, h.ss, h.sp, fun _ _ _ _ ↦ congrFun h.ram _⟩

/-- One more instruction on general registers. -/
theorem wp_scratch {g : Cpu → Cpu} {rest : Code fin α} (hs : Scratch s s')
    (hg : ∀ t, Scratch t (g t)) (hrest : ∀ t, Scratch s t → Wp rest Q t) :
    Wp (do modify g; rest) Q s' :=
  wp_bind (wp_modify_of (Scratch s) (hs.trans (hg s')) hrest)

theorem Room.mono {k : ℕ} (h : Room free fin n s) (hk : k ≤ n) : Room free fin k s :=
  ⟨hk.trans h.le_sp, h.le_fin, h.le_free⟩

theorem Room.balanced (h : Room free fin n s) (hb : Balanced free fin s s') :
    Room free fin n s' where
  le_sp := hb.sp ▸ h.le_sp
  le_fin := by
    rw [hb.ss, hb.sp]
    exact h.le_fin
  le_free x hx := by
    rw [hb.ss, hb.sp]
    exact h.le_free x hx

/-- The stack pointer after a push, and the byte above it. -/
theorem toNat_sp_sub (h : 2 ≤ s.sp.toNat) :
    (s.sp - 2).toNat = s.sp.toNat - 2 ∧ (s.sp - 2 + 1).toNat = s.sp.toNat - 1 := by
  have hlt := s.sp.toNat_lt
  have hsub : (s.sp - 2).toNat = s.sp.toNat - 2 := by
    rw [UInt16.toNat_sub_of_le _ _ (by rwa [UInt16.le_iff_toNat_le])]
    rfl
  rw [UInt16.toNat_add, hsub, show UInt16.toNat 1 = 1 from rfl]
  omega

theorem ram_store8 (seg off : UInt16) (b : UInt8) :
    (s.store8 seg off b).ram = Function.update s.ram (linear seg off) b := rfl

theorem ram_store16 (seg off : UInt16) : (s.store16 seg off v).ram =
    Function.update (Function.update s.ram (linear seg off) (low v)) (linear seg (off + 1))
      (high v) := rfl

/-- A push writes to the two bytes below the stack. -/
theorem ram_push (h : 2 ≤ s.sp.toNat) : (s.push v).ram =
    Function.update (Function.update s.ram (linear s.ss s.sp - 2) (low v))
      (linear s.ss s.sp - 1) (high v) := by
  obtain ⟨hlow, hhigh⟩ := toNat_sp_sub h
  have hlin : linear s.ss (s.sp - 2) = linear s.ss s.sp - 2 := by
    rw [linear, linear, hlow]
    omega
  have hlin' : linear s.ss (s.sp - 2 + 1) = linear s.ss s.sp - 1 := by
    rw [linear, linear, hhigh]
    omega
  rw [Cpu.push, ram_store16, hlin, hlin']

/-- The upper byte is on top. -/
theorem ram_push_high (h : 2 ≤ s.sp.toNat) :
    (s.push v).ram (linear s.ss s.sp - 1) = high v := by
  rw [ram_push h, Function.update_self]

theorem linear_push (h : 2 ≤ s.sp.toNat) :
    linear (s.push v).ss (s.push v).sp = linear s.ss s.sp - 2 := by
  change linear s.ss (s.sp - 2) = _
  rw [linear, linear, (toNat_sp_sub h).1]
  omega

/-- What is on the stack stays there. -/
theorem ram_push_of_le (h : 2 ≤ s.sp.toNat) {x : ℕ} (hx : linear s.ss s.sp ≤ x) :
    (s.push v).ram x = s.ram x := by
  have hsp : s.sp.toNat ≤ linear s.ss s.sp := Nat.le_add_left ..
  rw [ram_push h, Function.update_of_ne (by omega), Function.update_of_ne (by omega)]

theorem Room.push (h : Room free fin (n + 2) s) (v : UInt16) : Room free fin n (s.push v) := by
  have hle := h.le_sp
  have hlin := linear_push (v := v) (s := s) (by omega)
  have hfin := h.le_fin
  refine ⟨?_, by omega, fun x hx ↦ ?_⟩
  · change n ≤ (s.sp - 2).toNat
    rw [(toNat_sp_sub (by omega)).1]
    omega
  · have hfree := h.le_free x hx
    omega

/-- **What was pushed comes back**, and then the stack is what it was before. -/
theorem Balanced.pop (hroom : Room free fin 2 s) (h : Balanced free fin (s.push v) s') :
    s'.top = v ∧ Balanced free fin s s'.drop := by
  have hle := hroom.le_sp
  have hfin := hroom.le_fin
  have hsp : s.sp.toNat ≤ linear s.ss s.sp := Nat.le_add_left ..
  obtain ⟨hlow, hhigh⟩ := toNat_sp_sub hle
  have hlin := linear_push (v := v) hle
  have hpushed (x : ℕ) (hx : linear s.ss s.sp - 2 ≤ x) (hlt : x < linear s.ss s.sp) :
      s'.ram x = (s.push v).ram x :=
    h.ram x (by omega) (by omega) fun hfree ↦ absurd (hroom.le_free x hfree) (by omega)
  have hss : s'.ss = s.ss := h.ss
  have hsp' : s'.sp = s.sp - 2 := h.sp
  refine ⟨?_, h.ds, hss, ?_, fun x hx hlt hfree ↦ ?_⟩
  · rw [Cpu.top, Cpu.load16, Cpu.load8, Cpu.load8, hss, hsp', linear, linear, hlow, hhigh,
      show 16 * s.ss.toNat + (s.sp.toNat - 2) = linear s.ss s.sp - 2 by rw [linear]; omega,
      show 16 * s.ss.toNat + (s.sp.toNat - 1) = linear s.ss s.sp - 1 by rw [linear]; omega,
      hpushed _ le_rfl (by omega), hpushed _ (by omega) (by omega), ram_push hle,
      Function.update_self, Function.update_of_ne (by omega), Function.update_self]
    exact Words.ofBytes16_bytes16 v
  · change s'.sp + 2 = s.sp
    rw [hsp', UInt16.sub_add_cancel]
  · exact (h.ram x (by omega) hlt hfree).trans (ram_push_of_le hle hx)

/-- **A call of a balanced body** returns, and is balanced. -/
theorem wp_call {R : Cpu → Prop} {ret : UInt16} {body : Code fin Unit}
    (hroom : Room free fin 2 s)
    (hbody : Wp body (fun _ s' ↦ Balanced free fin (s.push ret) s' ∧ R s'.drop) (s.push ret)) :
    Wp (call ret ret body) (fun _ s' ↦ Balanced free fin s s' ∧ R s') s := by
  refine wp_bind (wp_push (wp_bind (hbody.mono fun _ s' ⟨hb, hR⟩ ↦ wp_bind (wp_pop ?_))))
  obtain ⟨htop, hdrop⟩ := hb.pop hroom
  rw [if_pos htop]
  exact wp_pure ⟨hdrop, hR⟩

end RealMode
