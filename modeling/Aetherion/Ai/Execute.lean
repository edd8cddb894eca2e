import Aetherion.Base.Words
import Aetherion.Ai.History
import Aetherion.Ai.Sprintf

/-!
# The commands of the assistant

`ia_execute_command` of `kernel/ai.c`: a command is compared with the known ones, does what it
does, and goes into the history whatever it was.

`vga_print` and `sscanf` are not in the sources.  Of the first only the texts count that it is
given; of the second, what it leaves in the two variables, which every call brings along
(`Scanned`).  A word that `p` has no room for is not considered.
-/

set_option autoImplicit false

namespace Aetherion.Ai

open CString (ofString strcmp strncmp)

/-- `system_params_t`. -/
structure SystemParams where
  brightness : UInt8
  volume : UInt8
  language : UInt8

/-- The statics that the commands work on. -/
structure Assistant where
  /-- The history, and the memory. -/
  hist : History
  /-- `sys_params`. -/
  params : SystemParams
  /-- `seed` of `rand_simple`. -/
  seed : UInt32
  /-- The texts that `vga_print` was given, all of them in colour `0x0A`. -/
  printed : List (List UInt8)

/-- The statics when the kernel starts. -/
def Assistant.initial (m : Ram) : Assistant := ⟨⟨m, 0, 0⟩, ⟨10, 5, 0⟩, 12345, []⟩

def vgaPrint (s : Assistant) (text : List UInt8) : Assistant :=
  { s with printed := s.printed ++ [text] }

/-- `reponses_random`. -/
def reponsesRandom : List (List UInt8) :=
  [ofString "Je ne comprends pas...",
    ofString "Essaie 'help' pour voir les commandes.",
    ofString "Tout fonctionne normalement.",
    ofString "AETHERION OS est pr" ++ [0xC3, 0xAA] ++ ofString "t.",  -- `ê`
    ofString "Parametres a jour."]

/-- `rand_simple`, with the next `seed`. -/
def randSimple (seed : UInt32) : UInt32 × ℕ :=
  let seed := seed * 1103515245 + 12345
  (seed, (seed / 65536 % 5).toNat)

def iaPrintRandom (s : Assistant) : Assistant :=
  let r := randSimple s.seed
  vgaPrint { s with seed := r.1 } (reponsesRandom.getD r.2 [])

/-- What `sscanf(cmd, "set %s %d", p, &v)` has left in `p` and `v`, which it may not have written
to. -/
structure Scanned where
  p : List UInt8
  v : Int32
  no_zero : 0 ∉ p
  /-- `p` has 16 entries. -/
  short : p.length < 16

/-- `sys_params.brightness = v` and the like. -/
def setParam (params : SystemParams) (p : List UInt8) (v : Int32) : SystemParams :=
  if strcmp p (ofString "brightness") = 0 then { params with brightness := v.toInt8.toUInt8 }
  else if strcmp p (ofString "volume") = 0 then { params with volume := v.toInt8.toUInt8 }
  else if strcmp p (ofString "language") = 0 then { params with language := v.toInt8.toUInt8 }
  else params

/-- `"brightness=%d volume=%d language=%d\n"`. -/
def settingsFormat : List UInt8 := ofString "brightness=%d volume=%d language=%d\n"

/-- An `unsigned char` becomes an `int` when it is passed. -/
def promote (b : UInt8) : Int32 := .ofNat b.toNat

def settingsArgs (params : SystemParams) : List Arg :=
  [.int (promote params.brightness), .int (promote params.volume), .int (promote params.language)]

/-- What is in `tmp` then. -/
def settingsText (params : SystemParams) : List UInt8 :=
  ofString "brightness=" ++ (decimal (promote params.brightness) ++ (ofString " volume=" ++
    (decimal (promote params.volume) ++ (ofString " language=" ++
      (decimal (promote params.language) ++ ofString "\n")))))

/-- The branches of `ia_execute_command`. -/
def runCommand (scanned : Scanned) (s : Assistant) (cmd : List UInt8) : Assistant :=
  if strcmp cmd (ofString "help") = 0 then
    vgaPrint s (ofString "Commandes: help, update, settings, set, show\n")
  else if strcmp cmd (ofString "update") = 0 then
    vgaPrint (vgaPrint s (ofString "Recherche mise a jour...\n"))
      (ofString "Mise a jour disponible: AETHERION OS v0.1\n")
  else if strcmp cmd (ofString "settings") = 0 then vgaPrint s (settingsText s.params)
  else if strncmp cmd (ofString "set ") 4 = 0 then
    vgaPrint { s with params := setParam s.params scanned.p scanned.v }
      (ofString "Parametre modifie\n")
  else iaPrintRandom s

def iaExecuteCommand (fuel : ℕ) {history : ℕ} (s : Assistant) (cmd : Command history)
    (scanned : Scanned) : Option Assistant :=
  let s := runCommand scanned s cmd.text
  (addHistory fuel history s.hist cmd.addr).map fun hist ↦ { s with hist := hist }

@[simp] theorem vgaPrint_hist (s : Assistant) (text : List UInt8) :
    (vgaPrint s text).hist = s.hist := rfl

@[simp] theorem iaPrintRandom_hist (s : Assistant) : (iaPrintRandom s).hist = s.hist := by
  rw [iaPrintRandom, vgaPrint_hist]

/-- No branch touches the history. -/
theorem runCommand_hist (scanned : Scanned) (s : Assistant) (cmd : List UInt8) :
    (runCommand scanned s cmd).hist = s.hist := by
  simp only [runCommand, apply_ite Assistant.hist, vgaPrint_hist, iaPrintRandom_hist, ite_self]

/-- **Every command goes into the history**, and that is all that happens to it. -/
theorem iaExecuteCommand_hist (fuel : ℕ) {history : ℕ} (s : Assistant) (cmd : Command history)
    (scanned : Scanned) : (iaExecuteCommand fuel s cmd scanned).map Assistant.hist =
      addHistory fuel history s.hist cmd.addr := by
  rw [iaExecuteCommand, Option.map_map, runCommand_hist]
  exact Option.map_id'

/-! ## The text of `settings` -/

/-- What becomes of a byte. -/
theorem promote_spec (b : UInt8) : promote b ≠ .minValue ∧ (decimal (promote b)).length ≤ 3 :=
  Words.of_lt b b.toNat_lt (by decide +kernel)

theorem settingsArgs_ne (params : SystemParams) : .int .minValue ∉ settingsArgs params := by
  simp [settingsArgs, (promote_spec _).1.symm]

/-- It fits into `tmp`, which has 64 entries. -/
theorem length_settingsText_lt (params : SystemParams) : (settingsText params).length < 64 := by
  have hb := (promote_spec params.brightness).2
  have hv := (promote_spec params.volume).2
  have hl := (promote_spec params.language).2
  have htext : (settingsText params).length =
      11 + ((decimal (promote params.brightness)).length + (8 +
        ((decimal (promote params.volume)).length + (10 +
          ((decimal (promote params.language)).length + 1))))) := by
    simp only [settingsText, List.length_append]
    rfl
  omega

/-- **`sprintf` writes this text into `tmp`.** -/
theorem writes_settingsText (params : SystemParams) (m : Ram) (tmp : ℕ) :
    Writes m tmp settingsFormat (settingsArgs params) (settingsText params) := by
  have hformat : settingsFormat = ofString "brightness=" ++ (37 :: 100 :: (ofString " volume=" ++
      (37 :: 100 :: (ofString " language=" ++ (37 :: 100 :: (ofString "\n" ++ [])))))) := by
    decide
  have hb : 37 ∉ ofString "brightness=" := by decide
  have hv : 37 ∉ ofString " volume=" := by decide
  have hl : 37 ∉ ofString " language=" := by decide
  have hend : 37 ∉ ofString "\n" := by decide
  refine writes_of_not_minValue ?_ (settingsArgs_ne params) ?_ m tmp
  · rw [hformat]
    exact .chars hb (.int _ (.chars hv (.int _ (.chars hl (.int _ (.chars hend .nil))))))
  · exact Nat.lt_trans (length_settingsText_lt params) (by decide)

end Aetherion.Ai
