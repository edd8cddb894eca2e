import Aetherion.Base.Driver

/-!
# Triples over histories

`Prog.Triple dev P p Q` is the Hoare triple of a program whose state is what has been exchanged so
far: started after a history with `P`, the program ends with a value and a history with `Q`.  An
assertion about a history can speak of the state of an observer, of what the observer has reported,
or of what the device has been told and has answered, so one set of rules serves for all of these.

A loop keeps an invariant over its index, its state and the history (`triple_forLoop`,
`triple_forEach`).  What a program does not touch it keeps (`triple_of_emits`).

`Partial` is the same for programs that may not end (`ComesToEnd` says that one does, `Total` that
one does whenever it is started with `P`), and `Ensures` for programs with a state of their own,
which may stop; there it is the weakest precondition, from the end to the beginning.
-/

set_option autoImplicit false

namespace Driver.Prog

variable {F : Iface} {α β ε σ : Type}

/-- **Started after a history with `P`**, the program ends with a value and a history with `Q`. -/
def Triple (dev : Device F) (P : Trace F → Prop) (p : Prog F α) (Q : α → Trace F → Prop) : Prop :=
  ∀ h, P h → Q (p.value dev h) (h ++ p.trace dev h)

section
variable {dev : Device F} {P P' : Trace F → Prop} {Q Q' : α → Trace F → Prop}
  {R : β → Trace F → Prop}

theorem triple_pure {a : α} (ha : ∀ h, P h → Q a h) : Triple dev P (pure a : Prog F α) Q := by
  intro h hP
  rw [value_pure, trace_pure, List.append_nil]
  exact ha h hP

theorem triple_emit {o : F.Out} {Q : Unit → Trace F → Prop}
    (ho : ∀ h, P h → Q () (h ++ [.out o])) : Triple dev P (emit o) Q := ho

theorem triple_ask {i : F.In} {Q : F.Reply i → Trace F → Prop}
    (hi : ∀ h, P h → Q (dev h i) (h ++ [.inp i (dev h i)])) : Triple dev P (ask i) Q := hi

/-- **A sequence.** -/
theorem Triple.bind {p : Prog F α} {f : α → Prog F β} (hp : Triple dev P p Q)
    (hf : ∀ a, Triple dev (Q a) (f a) R) : Triple dev P (p >>= f) R := by
  intro h hP
  have hrest := hf _ _ (hp h hP)
  rwa [List.append_assoc] at hrest

theorem Triple.mono {p : Prog F α} (hp : Triple dev P p Q) (hP : ∀ h, P' h → P h)
    (hQ : ∀ a h, Q a h → Q' a h) : Triple dev P' p Q' :=
  fun h hP' ↦ hQ _ _ (hp h (hP h hP'))

/-- What does not depend on the history is a hypothesis. -/
theorem triple_and {φ : Prop} {p : Prog F α} (hp : φ → Triple dev P p Q) :
    Triple dev (fun h ↦ φ ∧ P h) p Q := fun h hP ↦ hp hP.1 h hP.2

/-- Many assertions at a time. -/
theorem triple_forall {ι : Type} {P : ι → Trace F → Prop} {Q : ι → α → Trace F → Prop}
    {p : Prog F α} (hp : ∀ i, Triple dev (P i) p (Q i)) :
    Triple dev (fun h ↦ ∀ i, P i h) p (fun a h ↦ ∀ i, Q i a h) := fun h hP i ↦ hp i h (hP i)

/-- What is known of the value as well. -/
theorem Triple.and_returns {p : Prog F α} {V : α → Prop} (hp : Triple dev P p Q)
    (hV : Returns dev V p) : Triple dev P p (fun a h ↦ Q a h ∧ V a) :=
  fun h hP ↦ ⟨hp h hP, hV h⟩

theorem Triple.ite {c : Prop} [Decidable c] {p q : Prog F α} (hp : c → Triple dev P p Q)
    (hq : ¬c → Triple dev P q Q) : Triple dev P (if c then p else q) Q := by
  split
  · exact hp ‹_›
  · exact hq ‹_›

/-- **A program keeps what none of its exchanges can change.** -/
theorem triple_of_emits {E : Event F → Prop} {p : Prog F α} (hp : Emits E p)
    (hP : ∀ h e, E e → P h → P (h ++ [e])) : Triple dev P p (fun _ ↦ P) := by
  have htrace (t : Trace F) (ht : ∀ e ∈ t, E e) : ∀ h, P h → P (h ++ t) := by
    induction t with
    | nil => exact fun h hh ↦ (List.append_nil h).symm ▸ hh
    | cons e t ih =>
      intro h hh
      rw [List.append_cons]
      exact ih (fun e he ↦ ht e (List.mem_cons_of_mem _ he)) _ (hP h e (ht e (by simp)) hh)
  exact fun h hh ↦ htrace _ (hp dev h) h hh

/-! ## Loops -/

/-- **The rule for loops that can be left early.**  `I i a` holds on reaching index `i` with loop
state `a`; `R r` holds when the loop is left with `r`. -/
theorem triple_forLoop {body : ℕ → σ → Prog F (Except ε σ)} (I : ℕ → σ → Trace F → Prop)
    (R : ε → Trace F → Prop) (n lo : ℕ)
    (hb : ∀ i a, lo ≤ i → i < lo + n → Triple dev (I i a) (body i a)
      fun r h ↦ Exits (fun r ↦ R r h) (fun a' ↦ I (i + 1) a' h) r) {a : σ} :
    Triple dev (I lo a) (forLoop body n lo a)
      fun r h ↦ Exits (fun r ↦ R r h) (fun a' ↦ I (lo + n) a' h) r := by
  induction n generalizing lo a with
  | zero => exact triple_pure fun h ha ↦ ha
  | succ n ih =>
    refine (hb lo a le_rfl (by omega)).bind fun r ↦ ?_
    cases r with
    | error r => exact triple_pure fun h hr ↦ hr
    | ok a' =>
      rw [show lo + (n + 1) = lo + 1 + n by omega]
      exact ih _ fun i a hlo hlt ↦ hb i a (by omega) (by omega)

/-- **The rule for loops that run to their end.** -/
theorem triple_forEach {body : ℕ → σ → Prog F σ} (I : ℕ → σ → Trace F → Prop) (n lo : ℕ)
    (hb : ∀ i a, lo ≤ i → i < lo + n → Triple dev (I i a) (body i a) (I (i + 1))) {a : σ} :
    Triple dev (I lo a) (forEach body n lo a) (I (lo + n)) :=
  fun _ ha ↦ forEach_run body I dev n lo (fun i a h hlo hlt hi ↦ hb i a hlo hlt h hi) ha

end

/-! ## Programs that may wait for ever

A wait is given a number of tries, and ends without a value when they run out. -/

/-- **If the program ends**, started after a history with `P`, then with a value and a history with
`Q`. -/
def Partial (dev : Device F) (P : Trace F → Prop) (p : OptionT (Prog F) α)
    (Q : α → Trace F → Prop) : Prop :=
  Triple dev P p.run fun o h ↦ ∀ a, o = some a → Q a h

section
variable {dev : Device F} {P P' : Trace F → Prop} {Q : α → Trace F → Prop}
  {R : β → Trace F → Prop}

theorem partial_pure {a : α} (ha : ∀ h, P h → Q a h) :
    Partial dev P (pure a : OptionT (Prog F) α) Q :=
  triple_pure fun h hP _ hb ↦ Option.some.inj hb ▸ ha h hP

theorem partial_failure : Partial dev P (failure : OptionT (Prog F) α) Q :=
  triple_pure fun _ _ _ hb ↦ nomatch hb

theorem partial_lift {p : Prog F α} (hp : Triple dev P p Q) :
    Partial dev P (liftM p : OptionT (Prog F) α) Q :=
  hp.bind fun _ ↦ triple_pure fun _ hQ _ hb ↦ Option.some.inj hb ▸ hQ

theorem Partial.bind {p : OptionT (Prog F) α} {f : α → OptionT (Prog F) β}
    (hp : Partial dev P p Q) (hf : ∀ a, Partial dev (Q a) (f a) R) : Partial dev P (p >>= f) R := by
  rw [Partial, OptionT.run_bind, Option.elimM]
  refine Triple.bind hp fun o ↦ ?_
  cases o with
  | none => exact triple_pure fun _ _ _ hb ↦ nomatch hb
  | some a => exact Triple.mono (hf a) (fun h hh ↦ hh a rfl) fun _ _ hR ↦ hR

theorem Partial.mono {p : OptionT (Prog F) α} {Q' : α → Trace F → Prop}
    (hp : Partial dev P p Q) (hP : ∀ h, P' h → P h) (hQ : ∀ a h, Q a h → Q' a h) :
    Partial dev P' p Q' :=
  Triple.mono hp hP fun _ h ho a ha ↦ hQ a h (ho a ha)

theorem Partial.ite {c : Prop} [Decidable c] {p q : OptionT (Prog F) α}
    (hp : c → Partial dev P p Q) (hq : ¬c → Partial dev P q Q) :
    Partial dev P (if c then p else q) Q := by
  split
  · exact hp ‹_›
  · exact hq ‹_›

/-- **A sequence that may break off**, with something to say of that as well. -/
theorem triple_run_bind {p : OptionT (Prog F) α} {f : α → OptionT (Prog F) β}
    {R : Option β → Trace F → Prop}
    (hp : Triple dev P p.run fun o h ↦ o.elim (R none h) fun a ↦ Q a h)
    (hf : ∀ a, Triple dev (Q a) (f a).run R) : Triple dev P (p >>= f).run R := by
  rw [OptionT.run_bind]
  refine Triple.bind hp fun o ↦ ?_
  cases o with
  | none => exact triple_pure fun _ hR ↦ hR
  | some a => exact hf a

/-- After the history the program comes to its end. -/
def ComesToEnd (dev : Device F) (h : Trace F) (p : OptionT (Prog F) α) : Prop :=
  (p.run.value dev h).isSome

variable {h : Trace F}

theorem comesToEnd_bind {p : OptionT (Prog F) α} {f : α → OptionT (Prog F) β} :
    ComesToEnd dev h (p >>= f) ↔
      ∃ a, p.run.value dev h = some a ∧ ComesToEnd dev (h ++ p.run.trace dev h) (f a) := by
  rw [ComesToEnd, OptionT.run_bind, Option.elimM, value_bind]
  cases p.run.value dev h with
  | none => simp
  | some a => simp [ComesToEnd]

/-- A part that always ends makes no difference. -/
theorem comesToEnd_lift {p : Prog F α} {f : α → OptionT (Prog F) β} :
    ComesToEnd dev h (liftM p >>= f) ↔
      ComesToEnd dev (h ++ p.trace dev h) (f (p.value dev h)) := by
  have hvalue : (liftM p : OptionT (Prog F) α).run.value dev h = some (p.value dev h) := rfl
  have htrace : (liftM p : OptionT (Prog F) α).run.trace dev h = p.trace dev h :=
    List.append_nil _
  rw [comesToEnd_bind, hvalue, htrace]
  simp

end

/-- **The program ends**, started after a history with `P`, and with a value and a history with
`Q`. -/
def Total (dev : Device F) (P : Trace F → Prop) (p : OptionT (Prog F) α)
    (Q : α → Trace F → Prop) : Prop :=
  Triple dev P p.run fun o h ↦ ∃ a, o = some a ∧ Q a h

section
variable {dev : Device F} {P P' : Trace F → Prop} {Q : α → Trace F → Prop}
  {R : β → Trace F → Prop}

theorem total_pure {a : α} (ha : ∀ h, P h → Q a h) : Total dev P (pure a : OptionT (Prog F) α) Q :=
  triple_pure fun h hP ↦ ⟨a, rfl, ha h hP⟩

theorem total_lift {p : Prog F α} (hp : Triple dev P p Q) :
    Total dev P (liftM p : OptionT (Prog F) α) Q :=
  hp.bind fun a ↦ triple_pure fun _ hQ ↦ ⟨a, rfl, hQ⟩

theorem Total.bind {p : OptionT (Prog F) α} {f : α → OptionT (Prog F) β}
    (hp : Total dev P p Q) (hf : ∀ a, Total dev (Q a) (f a) R) : Total dev P (p >>= f) R := by
  refine triple_run_bind (Q := Q) (Triple.mono hp (fun _ hh ↦ hh) ?_) hf
  rintro _ h ⟨a, rfl, hQ⟩
  exact hQ

/-- The same where the value is known. -/
theorem Total.bind_eq {p : OptionT (Prog F) α} {f : α → OptionT (Prog F) β} {a : α}
    {S : Trace F → Prop} (hp : Total dev P p fun a' h ↦ a' = a ∧ S h)
    (hf : Total dev S (f a) R) : Total dev P (p >>= f) R :=
  hp.bind fun _ ↦ triple_and fun ha ↦ ha ▸ hf

theorem Total.mono {p : OptionT (Prog F) α} {Q' : α → Trace F → Prop} (hp : Total dev P p Q)
    (hP : ∀ h, P' h → P h) (hQ : ∀ a h, Q a h → Q' a h) : Total dev P' p Q' := by
  refine Triple.mono hp hP ?_
  rintro _ h ⟨a, ha, hh⟩
  exact ⟨a, ha, hQ a h hh⟩

theorem Total.ite {c : Prop} [Decidable c] {p q : OptionT (Prog F) α}
    (hp : c → Total dev P p Q) (hq : ¬c → Total dev P q Q) :
    Total dev P (if c then p else q) Q := by
  split
  · exact hp ‹_›
  · exact hq ‹_›

end

/-! ## Programs with a state

They can also stop on the way, and then it does not matter in what state. -/

/-- **Run from the state `s` after the history `h`**, the program ends with `Q`, or it stops with
`E`. -/
def Ensures (dev : Device F) (p : StateT σ (ExceptT ε (Prog F)) α) (Q : α → σ → Trace F → Prop)
    (E : ε → Trace F → Prop) (s : σ) (h : Trace F) : Prop :=
  Triple dev (· = h) (p.run s).run fun r h ↦ Exits (fun e ↦ E e h) (fun a ↦ Q a.1 a.2 h) r

section
variable {dev : Device F} {p : StateT σ (ExceptT ε (Prog F)) α} {Q Q' : α → σ → Trace F → Prop}
  {E : ε → Trace F → Prop} {s : σ} {h : Trace F}

theorem ensures_pure {a : α} (hQ : Q a s h) : Ensures dev (pure a) Q E s h :=
  triple_pure fun _ hh ↦ hh ▸ hQ

theorem ensures_get {Q : σ → σ → Trace F → Prop} (hQ : Q s s h) : Ensures dev get Q E s h :=
  triple_pure fun _ hh ↦ hh ▸ hQ

theorem ensures_modify {Q : Unit → σ → Trace F → Prop} {g : σ → σ} (hQ : Q () (g s) h) :
    Ensures dev (modify g) Q E s h := triple_pure fun _ hh ↦ hh ▸ hQ

theorem ensures_throw {e : ε} (hE : E e h) : Ensures dev (throw e) Q E s h :=
  triple_pure fun _ hh ↦ hh ▸ hE

theorem ensures_emit {Q : Unit → σ → Trace F → Prop} {o : F.Out} (hQ : Q () s (h ++ [.out o])) :
    Ensures dev (liftM (emit o)) Q E s h := by
  rintro _ rfl
  exact hQ

theorem ensures_ask {i : F.In} {Q : F.Reply i → σ → Trace F → Prop}
    (hQ : ∀ r, Q r s (h ++ [.inp i r])) : Ensures dev (liftM (ask i)) Q E s h := by
  rintro _ rfl
  exact hQ _

/-- **A sequence.** -/
theorem ensures_bind {f : α → StateT σ (ExceptT ε (Prog F)) β} {R : β → σ → Trace F → Prop}
    (hp : Ensures dev p (fun a ↦ Ensures dev (f a) R E) E s h) : Ensures dev (p >>= f) R E s h := by
  refine Triple.bind hp fun r ↦ ?_
  cases r with
  | error e => exact triple_pure fun _ he ↦ he
  | ok a => exact fun h' hf ↦ hf h' rfl

theorem Ensures.mono {E' : ε → Trace F → Prop} (hp : Ensures dev p Q E s h)
    (hQ : ∀ a s' h', Q a s' h' → Q' a s' h') (hE : ∀ e h', E e h' → E' e h') :
    Ensures dev p Q' E' s h :=
  Triple.mono hp (fun _ hh ↦ hh) fun r h' hr ↦ by
    cases r with
    | error e => exact hE e h' hr
    | ok a => exact hQ a.1 a.2 h' hr

theorem ensures_ite {c : Prop} [Decidable c] {q : StateT σ (ExceptT ε (Prog F)) α}
    (hp : c → Ensures dev p Q E s h) (hq : ¬c → Ensures dev q Q E s h) :
    Ensures dev (if c then p else q) Q E s h := by
  split
  · exact hp ‹_›
  · exact hq ‹_›

end
end Driver.Prog
