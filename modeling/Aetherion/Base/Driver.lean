import Mathlib.Data.List.Basic
import Mathlib.Data.List.Range

/-!
# Programs that talk to hardware

A driver is a program whose only effects are exchanges with the outside: it writes to a device, or
it reads from one and goes on with whatever it was told.  `Driver.Prog` is that program, over an
interface `Driver.Iface` that says what can be written, what can be read, and what type of answer
each read gets.

Nothing is assumed of the device.  A `Driver.Device` answers a read as it likes, with everything
that has happened so far in front of it, so a statement quantified over every `Device` and every
history is a statement about every behaviour the hardware could show.

A run is read through its *trace*, the list of exchanges in the order they were made.
`Prog.trace` gives only the exchanges a program adds, so the trace of a sequence is the
concatenation of the traces of its parts (`trace_bind`).  What a device makes of the writes it sees
is an `Driver.Observer`: a state machine that walks along a trace and reports what it recognises.
-/

set_option autoImplicit false

namespace Driver

/-- What a program can do to the hardware. -/
structure Iface where
  /-- The writes. -/
  Out : Type
  /-- The reads. -/
  In : Type
  /-- What a read is answered with. -/
  Reply : In → Type

variable {F : Iface}

/-- One exchange. -/
inductive Event (F : Iface) where
  /-- The program wrote. -/
  | out : F.Out → Event F
  /-- The program read, and was given this answer. -/
  | inp : (i : F.In) → F.Reply i → Event F

/-- A finite history of exchanges, oldest first. -/
abbrev Trace (F : Iface) := List (Event F)

/-- The outside: an answer to every read, given all that went before it. -/
abbrev Device (F : Iface) := Trace F → (i : F.In) → F.Reply i

/-- A program: against a device, and after a history, it ends with a value and adds exchanges. -/
def Prog (F : Iface) (α : Type) := Device F → Trace F → α × Trace F

namespace Prog

variable {α β ε σ : Type}

/-- The value a run ends with. -/
def value (p : Prog F α) (dev : Device F) (h : Trace F) : α := (p dev h).1

/-- The exchanges a run adds to the history. -/
def trace (p : Prog F α) (dev : Device F) (h : Trace F) : Trace F := (p dev h).2

instance : Monad (Prog F) where
  pure a := fun _ _ ↦ (a, [])
  bind p f := fun dev h ↦
    let r := p dev h
    let r' := f r.1 dev (h ++ r.2)
    (r'.1, r.2 ++ r'.2)

/-- Write to the hardware. -/
def emit (o : F.Out) : Prog F Unit := fun _ _ ↦ ((), [.out o])

/-- Read from the hardware. -/
def ask (i : F.In) : Prog F (F.Reply i) := fun dev h ↦ (dev h i, [.inp i (dev h i)])

section
variable (dev : Device F) (h : Trace F)

@[simp] theorem value_pure (a : α) : (pure a : Prog F α).value dev h = a := rfl

@[simp] theorem trace_pure (a : α) : (pure a : Prog F α).trace dev h = [] := rfl

@[simp] theorem value_emit (o : F.Out) : (emit o : Prog F Unit).value dev h = () := rfl

@[simp] theorem trace_emit (o : F.Out) : (emit o : Prog F Unit).trace dev h = [.out o] := rfl

@[simp] theorem value_ask (i : F.In) : (ask i : Prog F _).value dev h = dev h i := rfl

@[simp] theorem trace_ask (i : F.In) : (ask i : Prog F _).trace dev h = [.inp i (dev h i)] := rfl

@[simp] theorem value_bind (p : Prog F α) (f : α → Prog F β) :
    (p >>= f).value dev h = (f (p.value dev h)).value dev (h ++ p.trace dev h) := rfl

/-- **The trace of a sequence is the trace of its first part followed by that of the rest.** -/
@[simp] theorem trace_bind (p : Prog F α) (f : α → Prog F β) :
    (p >>= f).trace dev h =
      p.trace dev h ++ (f (p.value dev h)).trace dev (h ++ p.trace dev h) := rfl

theorem bind_assoc {γ : Type} (p : Prog F α) (f : α → Prog F β) (g : β → Prog F γ) :
    (p >>= f) >>= g = p >>= fun a ↦ f a >>= g := by
  funext dev h
  have hvalue : ((p >>= f) >>= g).value dev h = (p >>= fun a ↦ f a >>= g).value dev h := by
    simp only [value_bind, trace_bind, List.append_assoc]
  have htrace : ((p >>= f) >>= g).trace dev h = (p >>= fun a ↦ f a >>= g).trace dev h := by
    simp only [value_bind, trace_bind, List.append_assoc]
  exact Prod.ext hvalue htrace

@[simp] theorem value_ite {c : Prop} [Decidable c] (p q : Prog F α) :
    (if c then p else q).value dev h = if c then p.value dev h else q.value dev h := by
  split <;> rfl

@[simp] theorem trace_ite {c : Prop} [Decidable c] (p q : Prog F α) :
    (if c then p else q).trace dev h = if c then p.trace dev h else q.trace dev h := by
  split <;> rfl

end

/-! ## Which exchanges a program can make -/

/-- Every exchange of every run of `p` satisfies `P`. -/
def Emits (P : Event F → Prop) (p : Prog F α) : Prop :=
  ∀ dev h, ∀ e ∈ p.trace dev h, P e

variable {P Q : Event F → Prop}

theorem Emits.mono {p : Prog F α} (hPQ : ∀ e, P e → Q e) (hp : Emits P p) : Emits Q p :=
  fun dev h e he ↦ hPQ e (hp dev h e he)

theorem emits_pure (a : α) : Emits P (pure a : Prog F α) := by
  intro dev h e he
  simp at he

theorem emits_emit {o : F.Out} (ho : P (.out o)) : Emits P (emit o : Prog F Unit) := by
  intro dev h e he
  rw [trace_emit, List.mem_singleton] at he
  exact he ▸ ho

theorem emits_ask {i : F.In} (hi : ∀ r, P (.inp i r)) : Emits P (ask i : Prog F (F.Reply i)) := by
  intro dev h e he
  rw [trace_ask, List.mem_singleton] at he
  exact he ▸ hi _

theorem Emits.bind {p : Prog F α} {f : α → Prog F β} (hp : Emits P p) (hf : ∀ a, Emits P (f a)) :
    Emits P (p >>= f) := by
  intro dev h e he
  rw [trace_bind, List.mem_append] at he
  exact he.elim (hp dev h e) (hf _ dev _ e)

theorem Emits.ite {c : Prop} [Decidable c] {p q : Prog F α} (hp : Emits P p) (hq : Emits P q) :
    Emits P (if c then p else q) := by
  split
  · exact hp
  · exact hq

theorem Emits.dite {c : Prop} [Decidable c] {p : c → Prog F α} {q : ¬c → Prog F α}
    (hp : ∀ hc, Emits P (p hc)) (hq : ∀ hc, Emits P (q hc)) :
    Emits P (if hc : c then p hc else q hc) := by
  split
  · exact hp _
  · exact hq _

/-- The writes along a trace, in order. -/
def outs (t : Trace F) : List F.Out :=
  t.filterMap fun
    | .out o => some o
    | .inp _ _ => none

@[simp] theorem outs_append (t u : Trace F) : outs (t ++ u) = outs t ++ outs u :=
  List.filterMap_append

/-- Writes, and nothing else. -/
def ofOuts (os : List F.Out) : Trace F := os.map .out

theorem outs_ofOuts (os : List F.Out) : outs (ofOuts os) = os := by
  rw [outs, ofOuts, List.filterMap_map]
  exact List.filterMap_some

/-- Every exchange of a trace satisfies `P`, together with the history it comes after. -/
def Along (P : Trace F → Event F → Prop) : Trace F → Trace F → Prop
  | _, [] => True
  | h, e :: t => P h e ∧ Along P (h ++ [e]) t

section
variable {P : Trace F → Event F → Prop} {h t u : Trace F}

theorem along_append : Along P h (t ++ u) ↔ Along P h t ∧ Along P (h ++ t) u := by
  induction t generalizing h with
  | nil =>
    rw [List.append_nil]
    exact (iff_of_eq (true_and _)).symm
  | cons e t ih =>
    rw [List.cons_append, Along, Along, ih, and_assoc, List.append_assoc, List.singleton_append]

theorem along_of_forall (ht : ∀ e ∈ t, ∀ h, P h e) : Along P h t := by
  induction t generalizing h with
  | nil => trivial
  | cons e t ih =>
    exact ⟨ht e List.mem_cons_self h, ih fun e' he' ↦ ht e' (List.mem_cons_of_mem _ he')⟩

/-- The writes of a list, each after those before it. -/
theorem along_ofOuts {os : List F.Out} :
    Along P h (ofOuts os) ↔ ∀ pre o post, os = pre ++ o :: post → P (h ++ ofOuts pre) (.out o) := by
  induction os generalizing h with
  | nil => exact iff_of_true trivial fun pre o post hos ↦ nomatch List.append_eq_nil_iff.mp hos.symm
  | cons o os ih =>
    change P h (.out o) ∧ Along P (h ++ [.out o]) (ofOuts os) ↔ _
    rw [ih]
    constructor
    · rintro ⟨ho, hos⟩ (_ | ⟨o', pre⟩) o'' post heq
      · obtain ⟨rfl, rfl⟩ := List.cons.inj heq
        rwa [ofOuts, List.map_nil, List.append_nil]
      · obtain ⟨rfl, hrest⟩ := List.cons.inj heq
        have hpre := hos pre o'' post hrest
        rwa [List.append_assoc] at hpre
    · intro hall
      refine ⟨?_, fun pre o' post heq ↦ ?_⟩
      · have hfirst := hall [] o os rfl
        rwa [ofOuts, List.map_nil, List.append_nil] at hfirst
      · have hpre := hall (o :: pre) o' post (by rw [heq]; rfl)
        rw [List.append_assoc]
        exact hpre

end

/-! ## What a program returns -/

/-- Every run of `p` against `dev` ends with a value that satisfies `P`. -/
def Returns (dev : Device F) (P : α → Prop) (p : Prog F α) : Prop := ∀ h, P (p.value dev h)

section
variable {dev : Device F} {P Q : α → Prop} {R : β → Prop}

theorem returns_trivial (p : Prog F α) : Returns dev (fun _ ↦ True) p := fun _ ↦ trivial

theorem returns_pure {a : α} (ha : P a) : Returns dev P (pure a : Prog F α) := fun _ ↦ ha

theorem Returns.mono {p : Prog F α} (hQP : ∀ a, Q a → P a) (hp : Returns dev Q p) :
    Returns dev P p := fun h ↦ hQP _ (hp h)

theorem Returns.bind {p : Prog F α} {f : α → Prog F β} (hp : Returns dev Q p)
    (hf : ∀ a, Q a → Returns dev R (f a)) : Returns dev R (p >>= f) :=
  fun h ↦ hf _ (hp h) _

/-- The first part can only end in one way. -/
theorem returns_bind_eq {p : Prog F α} {f : α → Prog F β} {a : α} (hp : Returns dev (· = a) p)
    (hf : Returns dev R (f a)) : Returns dev R (p >>= f) :=
  hp.bind fun _ ha ↦ ha ▸ hf

/-- Nothing need be known of the first part. -/
theorem returns_then {p : Prog F α} {f : α → Prog F β} (hf : ∀ a, Returns dev R (f a)) :
    Returns dev R (p >>= f) := (returns_trivial p).bind fun a _ ↦ hf a

theorem Returns.ite {c : Prop} [Decidable c] {p q : Prog F α} (hp : c → Returns dev P p)
    (hq : ¬c → Returns dev P q) : Returns dev P (if c then p else q) := by
  split
  · exact hp ‹_›
  · exact hq ‹_›

end

/-! ## Counted loops -/

/-- `for (i = lo; i < lo + n; i++)`, with a loop state, left early when the body ends in an
error. -/
def forLoop (body : ℕ → σ → Prog F (Except ε σ)) : ℕ → ℕ → σ → Prog F (Except ε σ)
  | 0, _, a => pure (.ok a)
  | n + 1, i, a => do
    match ← body i a with
    | .error r => pure (.error r)
    | .ok a' => forLoop body n (i + 1) a'

theorem emits_forLoop {body : ℕ → σ → Prog F (Except ε σ)} (hb : ∀ i a, Emits P (body i a)) :
    ∀ (n lo : ℕ) (a : σ), Emits P (forLoop body n lo a)
  | 0, _, _ => emits_pure _
  | n + 1, lo, a => (hb lo a).bind fun r ↦ by
    cases r with
    | error r => exact emits_pure _
    | ok a' => exact emits_forLoop hb n (lo + 1) a'

/-- How a loop can end: early, with a value in `R`, or at its end, in a state in `Q`. -/
def Exits (R : ε → Prop) (Q : σ → Prop) : Except ε σ → Prop
  | .error r => R r
  | .ok a => Q a

/-- **The invariant rule for loops.**  `I i a` holds on reaching index `i` with loop state `a`;
`R r` holds of the value an early exit returns. -/
theorem returns_forLoop {body : ℕ → σ → Prog F (Except ε σ)} {dev : Device F} (I : ℕ → σ → Prop)
    (R : ε → Prop) {n lo : ℕ}
    (hb : ∀ i a, lo ≤ i → i < lo + n → I i a → Returns dev (Exits R (I (i + 1))) (body i a))
    {a : σ} (ha : I lo a) : Returns dev (Exits R (I (lo + n))) (forLoop body n lo a) := by
  induction n generalizing lo a with
  | zero => exact returns_pure ha
  | succ n ih =>
    refine (hb lo a le_rfl (by omega) ha).bind fun r hr ↦ ?_
    cases r with
    | error r => exact returns_pure hr
    | ok a' =>
      rw [show lo + (n + 1) = lo + 1 + n by omega]
      exact ih (fun i a hlo hlt ↦ hb i a (by omega) (by omega)) hr

/-- The way a loop takes: entered with the loop state `a i` after the history `hist i`, the body
leaves the loop with `r` after the history `last i` if `Stops i r`, and goes on to the next pass if
there is no such `r`. -/
structure Path (body : ℕ → σ → Prog F (Except ε σ)) (dev : Device F) (a : ℕ → σ)
    (hist : ℕ → Trace F) (Stops : ℕ → ε → Prop) (last : ℕ → Trace F) (n : ℕ) : Prop where
  stops : ∀ i < n, ∀ r, Stops i r → (body i (a i)).value dev (hist i) = .error r ∧
    hist i ++ (body i (a i)).trace dev (hist i) = last i
  goes : ∀ i < n, (∀ r, ¬Stops i r) → (body i (a i)).value dev (hist i) = .ok (a (i + 1)) ∧
    hist i ++ (body i (a i)).trace dev (hist i) = hist (i + 1)

/-- **How a loop on such a way ends.** -/
inductive LoopEnds (a : ℕ → σ) (hist : ℕ → Trace F) (Stops : ℕ → ε → Prop) (last : ℕ → Trace F)
    (n : ℕ) : Except ε σ → Trace F → Prop where
  /-- Pass `k` is the first to leave it. -/
  | stopped (k : ℕ) (r : ε) (hk : k < n) (hbefore : ∀ j < k, ∀ r, ¬Stops j r)
      (hstops : Stops k r) : LoopEnds a hist Stops last n (.error r) (last k)
  /-- No pass leaves it. -/
  | finished (hall : ∀ j < n, ∀ r, ¬Stops j r) : LoopEnds a hist Stops last n (.ok (a n)) (hist n)

theorem forLoop_ends {body : ℕ → σ → Prog F (Except ε σ)} {dev : Device F} {a : ℕ → σ}
    {hist : ℕ → Trace F} {Stops : ℕ → ε → Prop} {last : ℕ → Trace F} {n : ℕ}
    (hb : Path body dev a hist Stops last n) :
    LoopEnds a hist Stops last n ((forLoop body n 0 (a 0)).value dev (hist 0))
      (hist 0 ++ (forLoop body n 0 (a 0)).trace dev (hist 0)) := by
  have hfrom (k lo : ℕ) (hk : lo + k = n) (hbefore : ∀ j < lo, ∀ r, ¬Stops j r) :
      LoopEnds a hist Stops last n ((forLoop body k lo (a lo)).value dev (hist lo))
        (hist lo ++ (forLoop body k lo (a lo)).trace dev (hist lo)) := by
    induction k generalizing lo with
    | zero =>
      subst hk
      rw [forLoop, value_pure, trace_pure, List.append_nil]
      exact .finished hbefore
    | succ k ih =>
      rw [forLoop, value_bind, trace_bind, ← List.append_assoc]
      by_cases hstops : ∃ r, Stops lo r
      · obtain ⟨r, hr⟩ := hstops
        obtain ⟨hvalue, htrace⟩ := hb.stops lo (by omega) r hr
        rw [hvalue, htrace, value_pure, trace_pure, List.append_nil]
        exact .stopped lo r (by omega) hbefore hr
      · have hgoes := not_exists.mp hstops
        obtain ⟨hvalue, htrace⟩ := hb.goes lo (by omega) hgoes
        rw [hvalue, htrace]
        refine ih (lo + 1) (by omega) fun j hj ↦ ?_
        rcases Nat.lt_succ_iff_lt_or_eq.mp hj with hlt | rfl
        · exact hbefore j hlt
        · exact hgoes
  exact hfrom n 0 (Nat.zero_add n) fun j hj ↦ absurd hj (Nat.not_lt_zero j)

/-- `for (i = lo; i < lo + n; i++)`, with a loop state, and no way out before the end. -/
def forEach (body : ℕ → σ → Prog F σ) : ℕ → ℕ → σ → Prog F σ
  | 0, _, a => pure a
  | n + 1, i, a => do
    let a' ← body i a
    forEach body n (i + 1) a'

theorem emits_forEach {body : ℕ → σ → Prog F σ} (hb : ∀ i a, Emits P (body i a)) :
    ∀ (n lo : ℕ) (a : σ), Emits P (forEach body n lo a)
  | 0, _, _ => emits_pure _
  | n + 1, lo, a => (hb lo a).bind fun a' ↦ emits_forEach hb n (lo + 1) a'

/-- The same when the body behaves for the indices of the loop only. -/
theorem emits_forEach_of_lt {body : ℕ → σ → Prog F σ} (n lo : ℕ)
    (hb : ∀ i a, lo ≤ i → i < lo + n → Emits P (body i a)) (a : σ) :
    Emits P (forEach body n lo a) := by
  induction n generalizing lo a with
  | zero => exact emits_pure _
  | succ n ih =>
    exact (hb lo a le_rfl (by omega)).bind fun a' ↦
      ih (lo + 1) (fun i a hlo hlt ↦ hb i a (by omega) (by omega)) a'

/-- **The invariant rule for `forEach`.**  `I i a h` holds on reaching index `i` with loop state
`a` after the history `h`. -/
theorem forEach_run (body : ℕ → σ → Prog F σ) (I : ℕ → σ → Trace F → Prop) (dev : Device F)
    (n lo : ℕ)
    (hb : ∀ i a h, lo ≤ i → i < lo + n → I i a h →
      I (i + 1) ((body i a).value dev h) (h ++ (body i a).trace dev h))
    {a : σ} {h : Trace F} (ha : I lo a h) :
    I (lo + n) ((forEach body n lo a).value dev h) (h ++ (forEach body n lo a).trace dev h) := by
  induction n generalizing lo a h with
  | zero =>
    rw [forEach, trace_pure, List.append_nil]
    exact ha
  | succ n ih =>
    rw [forEach, value_bind, trace_bind, ← List.append_assoc,
      show lo + (n + 1) = lo + 1 + n by omega]
    exact ih _ (fun i a h hlo hlt ↦ hb i a h (by omega) (by omega))
      (hb lo a h le_rfl (by omega) ha)

/-- The same rule for the value alone. -/
theorem returns_forEach {body : ℕ → σ → Prog F σ} {dev : Device F} (I : ℕ → σ → Prop) {n lo : ℕ}
    (hb : ∀ i a, lo ≤ i → i < lo + n → I i a → Returns dev (I (i + 1)) (body i a))
    {a : σ} (ha : I lo a) : Returns dev (I (lo + n)) (forEach body n lo a) := fun _ ↦
  forEach_run body (fun i a _ ↦ I i a) dev n lo (fun i a h hlo hlt hi ↦ hb i a hlo hlt hi h) ha

end Prog

/-! ## Observers -/

/-- A state machine that watches a trace and reports what it recognises. -/
structure Observer (F : Iface) (σ ω : Type) where
  /-- What one exchange does to the state, and what is reported for it. -/
  step : σ → Event F → σ × List ω

namespace Observer

variable {σ ω α ε τ : Type} (m : Observer F σ ω)

/-- The state after a trace. -/
def after (s : σ) (t : Trace F) : σ := t.foldl (fun s e ↦ (m.step s e).1) s

/-- Everything reported along a trace, in order. -/
def reports : σ → Trace F → List ω
  | _, [] => []
  | s, e :: t => (m.step s e).2 ++ reports (m.step s e).1 t

@[simp] theorem after_nil (s : σ) : m.after s [] = s := rfl

@[simp] theorem after_cons (s : σ) (e : Event F) (t : Trace F) :
    m.after s (e :: t) = m.after (m.step s e).1 t := rfl

@[simp] theorem reports_nil (s : σ) : m.reports s [] = [] := rfl

@[simp] theorem reports_cons (s : σ) (e : Event F) (t : Trace F) :
    m.reports s (e :: t) = (m.step s e).2 ++ m.reports (m.step s e).1 t := rfl

@[simp] theorem after_append (s : σ) (t u : Trace F) :
    m.after s (t ++ u) = m.after (m.after s t) u := List.foldl_append ..

@[simp] theorem reports_append (s : σ) (t u : Trace F) :
    m.reports s (t ++ u) = m.reports s t ++ m.reports (m.after s t) u := by
  induction t generalizing s with
  | nil => rfl
  | cons e t ih => rw [List.cons_append, reports_cons, ih, reports_cons, after_cons,
      List.append_assoc]

/-- The observer takes no notice of the exchange. -/
def Ignores (e : Event F) : Prop := ∀ s, m.step s e = (s, [])

theorem after_of_ignores {t : Trace F} (ht : ∀ e ∈ t, m.Ignores e) (s : σ) : m.after s t = s := by
  induction t with
  | nil => rfl
  | cons e t ih =>
    rw [after_cons, ht e (by simp) s]
    exact ih fun e he ↦ ht e (List.mem_cons_of_mem _ he)

theorem reports_of_ignores {t : Trace F} (ht : ∀ e ∈ t, m.Ignores e) (s : σ) :
    m.reports s t = [] := by
  induction t with
  | nil => rfl
  | cons e t ih =>
    rw [reports_cons, ht e (by simp) s]
    exact ih fun e he ↦ ht e (List.mem_cons_of_mem _ he)

/-- Whatever is reported is reported for some exchange. -/
theorem exists_of_mem_reports {t : Trace F} {s : σ} {w : ω} (hw : w ∈ m.reports s t) :
    ∃ e ∈ t, ∃ s', w ∈ (m.step s' e).2 := by
  induction t generalizing s with
  | nil => cases hw
  | cons e t ih =>
    rcases List.mem_append.mp hw with hw | hw
    · exact ⟨e, by simp, s, hw⟩
    · obtain ⟨e', he', s', hs'⟩ := ih hw
      exact ⟨e', List.mem_cons_of_mem _ he', s', hs'⟩

/-- **What a loop reports.**  If every pass through the body, entered with `I` true of the
observer, leaves `I` true and reports `f i`, then the loop reports `f lo`, `f (lo + 1)`, … for as
many passes as it made: all of them, unless it was left early, and at least the first. -/
theorem reports_forLoop (body : ℕ → τ → Prog F (Except ε τ)) (I : σ → Prop) (f : ℕ → List ω)
    (dev : Device F) (n lo : ℕ)
    (hb : ∀ i a h s, lo ≤ i → i < lo + n → I s →
      I (m.after s ((body i a).trace dev h)) ∧ m.reports s ((body i a).trace dev h) = f i)
    (a : τ) (h : Trace F) {s : σ} (hs : I s) :
    I (m.after s ((Prog.forLoop body n lo a).trace dev h)) ∧
      ∃ k ≤ n, (0 < n → 0 < k) ∧
        m.reports s ((Prog.forLoop body n lo a).trace dev h) = (List.range' lo k).flatMap f ∧
        (∀ b, (Prog.forLoop body n lo a).value dev h = .ok b → k = n) := by
  induction n generalizing lo a h s with
  | zero => exact ⟨hs, 0, le_rfl, id, rfl, fun _ _ ↦ rfl⟩
  | succ n ih =>
    obtain ⟨hI, hrep⟩ := hb lo a h s le_rfl (by omega) hs
    rw [Prog.forLoop, Prog.trace_bind, Prog.value_bind]
    cases hv : (body lo a).value dev h with
    | error r =>
      refine ⟨by simpa using hI, 1, by omega, fun _ ↦ Nat.one_pos, by simp [hrep], ?_⟩
      intro b hb
      simp at hb
    | ok a' =>
      obtain ⟨hI', k, hk, -, hrep', hall⟩ := ih (lo + 1)
        (fun i a h s hlo hlt ↦ hb i a h s (by omega) (by omega)) a'
        (h ++ (body lo a).trace dev h) hI
      refine ⟨by simpa using hI', k + 1, by omega, fun _ ↦ Nat.succ_pos k, ?_, fun b hb ↦ ?_⟩
      · rw [reports_append, hrep, hrep', List.range'_succ, List.flatMap_cons]
      · rw [hall b hb]

end Observer
end Driver
