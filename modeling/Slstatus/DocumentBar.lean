import Slstatus.ConfSpelling
import Slstatus.MainLife
import Slstatus.RoomyFormats
import Slstatus.StatusBar

/-! From the configuration file to the bar: what a whole run of main leaves in it. -/

namespace Slstatus

section Document

variable {S : Type} (lib : Libconfig S) (haveMpd : Bool) (d : S)

theorem loadModules_unknownString (c : Config) :
    (loadModules lib haveMpd d c).unknownString = c.unknownString := by
  cases hlist : lib.lookup d "modules" with
  | none => simp [loadModules, hlist]
  | some list =>
    by_cases hl : lib.isList list = true
    · by_cases hempty : lib.elems list = []
      · simp [loadModules, hlist, hl, hempty]
      · simp [loadModules, hlist, hl, hempty]
    · simp [loadModules, hlist, hl]

theorem loadFallbackConfig_unknownString (c : Config) :
    (loadFallbackConfig haveMpd c).unknownString = c.unknownString := by
  cases hc : c.modules <;> cases haveMpd <;> simp [loadFallbackConfig, hc]

theorem loadConfig_unknownString :
    (loadConfig lib haveMpd (some d)).unknownString = lib.lookupString d "unknown_string" := by
  rw [loadConfig, loadFallbackConfig_unknownString]
  cases haveMpd with
  | false =>
    refine (loadModules_unknownString lib false d _).trans ?_
    exact Option.or_none
  | true =>
    refine (loadModules_unknownString lib true d _).trans ?_
    exact Option.or_none

theorem loadConfig_table :
    (loadConfig lib haveMpd (some d)).table = .ok (documentModules lib haveMpd d) := by
  obtain ⟨-, -, hmodules, hnum⟩ := loadConfig_fields lib haveMpd d
  simp [Config.table, hmodules, hnum]

end Document

section Run

variable {c : Config} {env : Nat → Nat → Outside} {turns : Nat → Turn} {argv : List Bytes}
  {w : World} {n k : Nat}

/-- The first signal that ends the loop ends the program, if no pass has faulted before. -/
theorem mainEnding_signal (hfree : w.free = true) (hargv : Runs argv)
    (hfirst : ∀ t < k, (turns t).ends = false) (hk : (turns k).ends = true) (hn : k < n)
    (hrun : (runMain c env (k + 1)).fault = none) :
    mainEnding c env turns argv w n =
      .ok (some { code := 0, calls := [.open, .setLock, .unLock, .close, .unlink],
                  log := (runMain c env (k + 1)).log }) := by
  obtain ⟨hdone, hstate⟩ : (mainLoop c env turns (k + 1)).done = true ∧
      (mainLoop c env turns (k + 1)).run = runMain c env (k + 1) := mainLoop_first hfirst hk
  have hparse := parseArgs_ok_iff.mpr hargv
  simp only [mainEnding, hfree, hparse, mainLoop_ended hfirst hk hn, hdone, hstate, hrun,
    not_true_eq_false, if_false, if_true]

end Run

end Slstatus
