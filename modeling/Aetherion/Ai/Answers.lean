import Mathlib.Data.Int.CardIntervalMod
import Aetherion.Ai.Navigation
import Aetherion.Base.Lcg
import Aetherion.Base.Store

/-!
# What the assistant says

Over a session of any length, `ia_execute_command` of `kernel/ai.c` has three things that outlast a
command: the parameters, the seed, and the history.  What is printed for a command depends on the
commands before it in two ways only (`session_transcript`): `settings` shows the values that were
last set, and the answer to a command that is not understood is chosen by how many such commands
there have been.

The choice is `rand_simple`, a linear congruential generator whose seed goes through all `2 ^ 32`
values.  So no answer is favoured in the long run but the first one, a little (`random_answers`):
65536 is one more than a multiple of five.
-/

set_option autoImplicit false

namespace Aetherion.Ai

open CString (ofString strcmp strncmp)
open Function

/-! ## Kinds of commands -/

/-- The branches of `ia_execute_command`. -/
inductive Kind
  | help | update | settings | set | unknown
  deriving DecidableEq

def kind (cmd : List UInt8) : Kind :=
  if strcmp cmd (ofString "help") = 0 then .help
  else if strcmp cmd (ofString "update") = 0 then .update
  else if strcmp cmd (ofString "settings") = 0 then .settings
  else if strncmp cmd (ofString "set ") 4 = 0 then .set
  else .unknown

/-- The fields of `system_params_t`. -/
inductive Param
  | brightness | volume | language
  deriving DecidableEq

/-- The name that `set` knows a parameter by. -/
def Param.name : Param → List UInt8
  | .brightness => ofString "brightness"
  | .volume => ofString "volume"
  | .language => ofString "language"

/-- What a value that is set becomes. -/
def paramItem (p : List UInt8) (v : Int32) : List (Param × UInt8) :=
  if strcmp p Param.brightness.name = 0 then [(.brightness, v.toInt8.toUInt8)]
  else if strcmp p Param.volume.name = 0 then [(.volume, v.toInt8.toUInt8)]
  else if strcmp p Param.language.name = 0 then [(.language, v.toInt8.toUInt8)]
  else []

/-- A command that is executed, with what `sscanf` leaves if it comes to that. -/
structure Executed where
  text : List UInt8
  scanned : Scanned

/-- The values that a command sets. -/
def Executed.setItems (cmd : Executed) : List (Param × UInt8) :=
  if kind cmd.text = .set then paramItem cmd.scanned.p cmd.scanned.v else []

/-! ## What a session has said -/

/-- The parameters after some commands: each has the value that it was last set to. -/
def values (cmds : List Executed) : SystemParams where
  brightness := (Store.last .brightness (cmds.flatMap Executed.setItems)).getD 10
  volume := (Store.last .volume (cmds.flatMap Executed.setItems)).getD 5
  language := (Store.last .language (cmds.flatMap Executed.setItems)).getD 0

/-- How many of some commands were not understood. -/
def unknowns (cmds : List Executed) : ℕ := cmds.countP (kind ·.text = .unknown)

/-- `seed` after so many calls of `rand_simple`. -/
def seedAfter (seed : UInt32) (n : ℕ) : UInt32 := (fun s ↦ (randSimple s).1)^[n] seed

/-- The answer that `rand_simple` chooses after so many calls. -/
def choice (seed : UInt32) (n : ℕ) : ℕ := (randSimple (seedAfter seed n)).2

/-- What is printed for a command, with these parameters and after so many unknown ones. -/
def replies (params : SystemParams) (n : ℕ) (cmd : List UInt8) : List (List UInt8) :=
  match kind cmd with
  | .help => [ofString "Commandes: help, update, settings, set, show\n"]
  | .update => [ofString "Recherche mise a jour...\n",
      ofString "Mise a jour disponible: AETHERION OS v0.1\n"]
  | .settings => [settingsText params]
  | .set => [ofString "Parametre modifie\n"]
  | .unknown => [reponsesRandom.getD (choice 12345 n) []]

/-- **What is printed for some commands**, each after the ones before it. -/
def transcript (cmds : List Executed) : List (List UInt8) :=
  cmds.zipIdx.flatMap fun c ↦
    replies (values (cmds.take c.2)) (unknowns (cmds.take c.2)) c.1.text

/-- The command that a call executes. -/
def Call.executed {history : ℕ} : Call history → Option Executed
  | .execute cmd scanned => some ⟨cmd.text, scanned⟩
  | .add _ | .nav _ _ => none

/-- **The assistant after some commands.** -/
structure Assistant.Says (s : Assistant) (cmds : List Executed) : Prop where
  params : s.params = values cmds
  seed : s.seed = seedAfter 12345 (unknowns cmds)
  printed : s.printed = transcript cmds

/-! ## One command -/

section
variable {cmds : List Executed} {s : Assistant}

theorem transcript_concat (cmds : List Executed) (cmd : Executed) :
    transcript (cmds ++ [cmd]) =
      transcript cmds ++ replies (values cmds) (unknowns cmds) cmd.text := by
  rw [transcript, List.zipIdx_append, List.flatMap_append, Nat.zero_add, List.zipIdx_singleton,
    List.flatMap_singleton, List.take_left]
  congr 1
  refine List.flatMap_congr fun c hc ↦ ?_
  have hlt : c.2 < cmds.length := List.snd_lt_of_mem_zipIdx hc
  rw [List.take_append_of_le_length hlt.le]

theorem unknowns_concat (cmds : List Executed) (cmd : Executed) :
    unknowns (cmds ++ [cmd]) = unknowns cmds + if kind cmd.text = .unknown then 1 else 0 := by
  rw [unknowns, List.countP_append, List.countP_singleton]
  simp [unknowns]

/-- A value that is set is the last one. -/
theorem values_setParam (cmds : List Executed) {cmd : Executed} (hkind : kind cmd.text = .set) :
    setParam (values cmds) cmd.scanned.p cmd.scanned.v = values (cmds ++ [cmd]) := by
  have hitems : (cmds ++ [cmd]).flatMap Executed.setItems = cmds.flatMap Executed.setItems ++
      paramItem cmd.scanned.p cmd.scanned.v := by
    rw [List.flatMap_append, List.flatMap_singleton, Executed.setItems, if_pos hkind]
  simp only [values, hitems, setParam, paramItem, Param.name]
  by_cases hbrightness : strcmp cmd.scanned.p (ofString "brightness") = 0
  · simp [hbrightness, Store.last_concat]
  by_cases hvolume : strcmp cmd.scanned.p (ofString "volume") = 0
  · simp [hbrightness, hvolume, Store.last_concat]
  by_cases hlanguage : strcmp cmd.scanned.p (ofString "language") = 0
  · simp [hbrightness, hvolume, hlanguage, Store.last_concat]
  · simp [hbrightness, hvolume, hlanguage]

/-- Another command sets none. -/
theorem values_concat (cmds : List Executed) {cmd : Executed} (hkind : kind cmd.text ≠ .set) :
    values (cmds ++ [cmd]) = values cmds := by
  simp only [values, List.flatMap_append, List.flatMap_singleton, Executed.setItems, if_neg hkind,
    List.append_nil]

theorem runCommand_kind (scanned : Scanned) (s : Assistant) (cmd : List UInt8) :
    runCommand scanned s cmd =
      match kind cmd with
      | .help => vgaPrint s (ofString "Commandes: help, update, settings, set, show\n")
      | .update => vgaPrint (vgaPrint s (ofString "Recherche mise a jour...\n"))
          (ofString "Mise a jour disponible: AETHERION OS v0.1\n")
      | .settings => vgaPrint s (settingsText s.params)
      | .set => vgaPrint { s with params := setParam s.params scanned.p scanned.v }
          (ofString "Parametre modifie\n")
      | .unknown => iaPrintRandom s := by
  rw [runCommand, kind]
  split_ifs <;> rfl

theorem seedAfter_succ (seed : UInt32) (n : ℕ) :
    seedAfter seed (n + 1) = (randSimple (seedAfter seed n)).1 := iterate_succ_apply' ..

theorem vgaPrint_params (s : Assistant) (text : List UInt8) :
    (vgaPrint s text).params = s.params := rfl

theorem vgaPrint_seed (s : Assistant) (text : List UInt8) : (vgaPrint s text).seed = s.seed := rfl

theorem vgaPrint_printed (s : Assistant) (text : List UInt8) :
    (vgaPrint s text).printed = s.printed ++ [text] := rfl

theorem iaPrintRandom_params (s : Assistant) : (iaPrintRandom s).params = s.params := by
  rw [iaPrintRandom, vgaPrint_params]

theorem iaPrintRandom_seed (s : Assistant) : (iaPrintRandom s).seed = (randSimple s.seed).1 := by
  rw [iaPrintRandom, vgaPrint_seed]

theorem iaPrintRandom_printed (s : Assistant) :
    (iaPrintRandom s).printed = s.printed ++ [reponsesRandom.getD (randSimple s.seed).2 []] := by
  rw [iaPrintRandom, vgaPrint_printed]

/-- A command other than `set` and an unknown one prints something, and that is all. -/
theorem Assistant.Says.other {s' : Assistant} (h : s.Says cmds) {cmd : Executed}
    (hset : kind cmd.text ≠ .set) (hunknown : kind cmd.text ≠ .unknown)
    (hparams : s'.params = s.params) (hseed : s'.seed = s.seed)
    (hprinted : s'.printed = s.printed ++ replies s.params (unknowns cmds) cmd.text) :
    s'.Says (cmds ++ [cmd]) where
  params := by rw [hparams, h.params, values_concat cmds hset]
  seed := by rw [hseed, h.seed, unknowns_concat, if_neg hunknown, Nat.add_zero]
  printed := by rw [hprinted, h.printed, transcript_concat, h.params]

/-- **One command.** -/
theorem Assistant.Says.run (h : s.Says cmds) (cmd : Executed) :
    (runCommand cmd.scanned s cmd.text).Says (cmds ++ [cmd]) := by
  rw [runCommand_kind]
  cases hkind : kind cmd.text with
  | help =>
    exact h.other (by simp [hkind]) (by simp [hkind]) rfl rfl (by simp [replies, hkind, vgaPrint])
  | update =>
    exact h.other (by simp [hkind]) (by simp [hkind]) rfl rfl (by simp [replies, hkind, vgaPrint])
  | settings =>
    exact h.other (by simp [hkind]) (by simp [hkind]) rfl rfl (by simp [replies, hkind, vgaPrint])
  | set =>
    refine ⟨?_, ?_, ?_⟩
    · rw [← values_setParam cmds hkind, ← h.params]
      rfl
    · rw [unknowns_concat, if_neg (by simp [hkind]), Nat.add_zero, ← h.seed]
      rfl
    · rw [transcript_concat, ← h.printed]
      simp only [replies, hkind, vgaPrint]
  | unknown =>
    refine ⟨?_, ?_, ?_⟩
    · rw [values_concat cmds (by simp [hkind]), ← h.params, iaPrintRandom_params]
    · rw [unknowns_concat, if_pos hkind, seedAfter_succ, ← h.seed, iaPrintRandom_seed]
    · rw [transcript_concat, ← h.printed, iaPrintRandom_printed]
      simp only [replies, hkind, choice, ← h.seed]

end

/-! ## Sessions -/

section
variable {fuel history : ℕ} {m : Ram} {calls : List (Call history)}

theorem says_initial (m : Ram) : (Assistant.initial m).Says [] := ⟨rfl, rfl, rfl⟩

/-- **One call**: only a command that is executed says anything. -/
theorem Assistant.Says.call {s s' : Session} {c : Call history} {cmds : List Executed}
    (h : s.assistant.Says cmds) (hcall : s.call fuel c = some s') :
    s'.assistant.Says (cmds ++ c.executed.toList) := by
  cases c with
  | execute cmd scanned =>
    obtain ⟨a, ha, rfl⟩ := Option.map_eq_some_iff.mp hcall
    obtain ⟨hist, -, rfl⟩ := Option.map_eq_some_iff.mp ha
    have hplaced : Assistant.Says { s.assistant with hist := cmd.place s.assistant.hist } cmds :=
      ⟨h.params, h.seed, h.printed⟩
    have hrun := hplaced.run ⟨cmd.text, scanned⟩
    exact ⟨hrun.params, hrun.seed, hrun.printed⟩
  | add cmd =>
    obtain ⟨hist, -, rfl⟩ := Option.map_eq_some_iff.mp hcall
    rw [Call.executed, Option.toList_none, List.append_nil]
    exact ⟨h.params, h.seed, h.printed⟩
  | nav dir buffer =>
    obtain ⟨r, -, rfl⟩ := Option.map_eq_some_iff.mp hcall
    rw [Call.executed, Option.toList_none, List.append_nil]
    exact ⟨h.params, h.seed, h.printed⟩

theorem says_afterCalls {s : Session} (h : afterCalls fuel m calls = some s) :
    s.assistant.Says (calls.filterMap Call.executed) := by
  induction calls using List.reverseRecOn generalizing s with
  | nil =>
    obtain rfl := Option.some.inj h
    exact says_initial m
  | append_singleton calls c ih =>
    rw [afterCalls, List.foldlM_append] at h
    obtain ⟨s₁, hs₁, hcall⟩ := Option.bind_eq_some_iff.mp h
    obtain ⟨s₂, hs₂, hpure⟩ := Option.bind_eq_some_iff.mp hcall
    obtain rfl := Option.some.inj hpure
    have hsays := (ih hs₁).call hs₂
    rwa [List.filterMap_append, show [c].filterMap Call.executed = c.executed.toList by
      cases c <;> rfl]

end

/-- **What a session prints** and what it leaves behind, for every sequence of calls that comes to
an end. -/
theorem session_transcript (fuel : ℕ) {history : ℕ} (m : Ram) (calls : List (Call history))
    {s : Session} (h : afterCalls fuel m calls = some s) :
    let cmds := calls.filterMap Call.executed
    s.assistant.printed = transcript cmds ∧ s.assistant.params = values cmds ∧
      s.assistant.seed = seedAfter 12345 (unknowns cmds) :=
  ⟨(says_afterCalls h).printed, (says_afterCalls h).params, (says_afterCalls h).seed⟩

def setBrightness : Command 0 where
  addr := 640
  text := ofString "set brightness 7"
  no_zero := by decide
  short := by decide
  apart := .inr le_rfl

def showSettings : Command 0 where
  addr := 640
  text := ofString "settings"
  no_zero := by decide
  short := by decide
  apart := .inr le_rfl

/-- What `sscanf` leaves of `set brightness 7`. -/
def brightnessSeven : Scanned where
  p := ofString "brightness"
  v := 7
  no_zero := by decide
  short := by decide

/-- A value that is set is shown.  What is in `p` and `v` when `settings` is executed does not
matter. -/
theorem session_transcript_set_then_shown : ∃ s,
    afterCalls 64 (fun _ ↦ 0) [.execute setBrightness brightnessSeven,
      .execute showSettings brightnessSeven] = some s ∧
    s.assistant.printed = [ofString "Parametre modifie\n",
      ofString "brightness=7 volume=5 language=0\n"] := by
  have hfirst : FirstNavUp [Call.execute setBrightness brightnessSeven,
      .execute showSettings brightnessSeven] := by
    intro pre dir buffer hpre
    have hmem : Call.nav dir buffer ∈ [Call.execute setBrightness brightnessSeven,
        .execute showSettings brightnessSeven] := hpre.subset (by simp)
    simp at hmem
  obtain ⟨s, hs, -⟩ := inv_afterCalls le_rfl (fun _ ↦ 0) hfirst
  refine ⟨s, hs, ?_⟩
  rw [(session_transcript _ _ _ hs).1]
  decide +kernel

/-! ## The generator -/

theorem toNat_randSimple (seed : UInt32) :
    (randSimple seed).1.toNat = Lcg.next 32 1103515245 12345 seed.toNat := by
  rw [randSimple, UInt32.toNat_add, UInt32.toNat_mul, Nat.mod_add_mod, Lcg.next, Nat.mul_comm]
  rfl

theorem randSimple_snd (seed : UInt32) :
    (randSimple seed).2 = (randSimple seed).1.toNat / 65536 % 5 := by
  rw [randSimple, UInt32.toNat_mod, UInt32.toNat_div]
  rfl

theorem toNat_seedAfter (seed : UInt32) (n : ℕ) :
    (seedAfter seed n).toNat = (Lcg.next 32 1103515245 12345)^[n] seed.toNat := by
  induction n with
  | zero => rfl
  | succ n ih => rw [seedAfter_succ, toNat_randSimple, ih, iterate_succ_apply']

/-- **The seed is back after a multiple of `2 ^ 32` calls, and at no other time.** -/
theorem seedAfter_eq_self_iff (seed : UInt32) (n : ℕ) : seedAfter seed n = seed ↔ 2 ^ 32 ∣ n := by
  rw [← UInt32.toNat_inj, toNat_seedAfter]
  exact Lcg.iterate_eq_self_iff rfl rfl seed.toNat_lt n

theorem choice_eq (seed : UInt32) (n : ℕ) :
    choice seed n = (seedAfter seed (n + 1)).toNat / 65536 % 5 := by
  rw [choice, randSimple_snd, seedAfter_succ]

theorem choice_lt (seed : UInt32) (n : ℕ) : choice seed n < 5 := by
  rw [choice_eq]
  exact Nat.mod_lt _ Nat.succ_pos'

/-- How many of the numbers below `2 ^ 32` choose the answer `r`. -/
theorem count_choosing {r : ℕ} (hr : r < 5) : Nat.count (fun x ↦ x / 65536 % 5 = r) (2 ^ 32) =
    65536 * if r = 0 then 13108 else 13107 := by
  have hhigh := Nat.count_modEq_card 65536 (show 0 < 5 by decide) r
  simp only [Nat.ModEq, Nat.mod_eq_of_lt hr, Nat.reduceMod, Nat.reduceDiv, Nat.lt_one_iff] at hhigh
  rw [show 2 ^ 32 = 65536 * 65536 from rfl, Lcg.count_div Nat.succ_pos' (· % 5 = r), hhigh]
  split <;> rfl

/-- **How often each answer is chosen**, whatever the seed is, in some periods of the generator. -/
theorem count_choice (seed : UInt32) (q : ℕ) {r : ℕ} (hr : r < 5) :
    Nat.count (fun n ↦ choice seed n = r) (q * 2 ^ 32) =
      q * (65536 * if r = 0 then 13108 else 13107) := by
  have hchoice (n : ℕ) : choice seed n =
      (Lcg.next 32 1103515245 12345)^[n] (randSimple seed).1.toNat / 65536 % 5 := by
    rw [choice_eq, ← toNat_seedAfter, seedAfter, iterate_succ_apply, seedAfter]
  simp only [hchoice]
  rw [Lcg.count_iterate rfl rfl (randSimple seed).1.toNat_lt (· / 65536 % 5 = r),
    count_choosing hr]

theorem nodup_reponsesRandom : reponsesRandom.Nodup := by decide +kernel

/-- Two answers are the same text only if they are the same answer. -/
theorem reponse_eq_iff {i r : ℕ} (hi : i < 5) (hr : r < 5) :
    reponsesRandom.getD i [] = reponsesRandom.getD r [] ↔ i = r := by
  rw [List.getD_eq_getElem _ _ hi, List.getD_eq_getElem _ _ hr]
  exact nodup_reponsesRandom.getElem_inj_iff

theorem iterate_iaPrintRandom (s : Assistant) (n : ℕ) :
    (iaPrintRandom^[n] s).seed = seedAfter s.seed n ∧ (iaPrintRandom^[n] s).printed =
      s.printed ++ (List.range n).map fun i ↦ reponsesRandom.getD (choice s.seed i) [] := by
  induction n with
  | zero => exact ⟨rfl, (List.append_nil _).symm⟩
  | succ n ih =>
    rw [iterate_succ_apply', iaPrintRandom_seed, iaPrintRandom_printed, ih.1, ih.2, seedAfter_succ,
      List.range_succ, List.map_append, List.append_assoc]
    exact ⟨rfl, rfl⟩

/-- **The random answers**: the seed comes back after `2 ^ 32` of them and no sooner, and until
then each has been given as often as the others, but for the first one. -/
theorem random_answers (s : Assistant) :
    (∀ n, (iaPrintRandom^[n] s).seed = s.seed ↔ 2 ^ 32 ∣ n) ∧
      ∀ q r, r < 5 → (iaPrintRandom^[q * 2 ^ 32] s).printed.count (reponsesRandom.getD r []) =
        s.printed.count (reponsesRandom.getD r []) +
          q * (65536 * if r = 0 then 13108 else 13107) := by
  refine ⟨fun n ↦ ?_, fun q r hr ↦ ?_⟩
  · rw [(iterate_iaPrintRandom s n).1]
    exact seedAfter_eq_self_iff s.seed n
  · rw [(iterate_iaPrintRandom s _).2, List.count_append, ← count_choice s.seed q hr, Nat.count,
      List.count, List.countP_map]
    congr 1
    refine List.countP_congr fun i _ ↦ ?_
    rw [comp_apply, beq_iff_eq, reponse_eq_iff (choice_lt s.seed i) hr, decide_eq_true_iff]

end Aetherion.Ai
