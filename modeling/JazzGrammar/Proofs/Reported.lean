/-
Whatever is wrong with a text is reported. No text that is read stops the program.
-/

import JazzGrammar.Proofs.Fault
import JazzGrammar.Settings

namespace JazzGrammar

/-- A computation does not stop the program: when it fails, its fault is reported. -/
def Reports {α : Type} (computation : Except Fault α) : Prop :=
  ∀ cause, computation ≠ .error (.stopped cause)

namespace Reports

variable {α β : Type}

theorem ok (value : α) : Reports (.ok value) :=
  nofun

theorem bind {first : Except Fault α} {next : α → Except Fault β} (one : Reports first)
    (other : ∀ value, Reports (next value)) : Reports (first >>= next) := by
  intro cause stopped
  obtain early | ⟨value, _, late⟩ := bind_eq_error.1 stopped
  · exact one cause early
  · exact other value cause late

theorem map {first : Except Fault α} (change : α → β) (one : Reports first) :
    Reports (first.map change) := by
  intro cause stopped
  exact one cause (map_eq_error.1 stopped)

/-- A check that raises a fault which is reported. -/
theorem guard {condition : Prop} [Decidable condition] {raised : Fault}
    {unreached : α → Except Fault β} {next : Except Fault β}
    (reported : ∀ cause, raised ≠ .stopped cause) (other : Reports next) :
    Reports (if condition then throw raised >>= unreached else next) := by
  intro cause stopped
  obtain ⟨_, early⟩ | ⟨_, late⟩ := guard_eq_error.1 stopped
  · exact reported cause early
  · exact other cause late

theorem mapM {read : α → Except Fault β} (each : ∀ value, Reports (read value))
    (values : List α) : Reports (values.mapM read) := by
  induction values with
  | nil => exact ok _
  | cons first rest ih =>
    rw [List.mapM_cons]
    exact (each first).bind fun _ => ih.bind fun _ => ok _

end Reports

theorem Root.read_reports (text : Text) : Reports (read text) := by
  rw [read]
  split
  split <;> nofun

theorem Chord.read_reports (text : Text) : Reports (read text) := by
  rw [read]
  dsimp only
  split
  · nofun
  · split
    · exact .ok _
    · exact (Root.read_reports _).map _

theorem Duration.ofRat_reports (value : Rat) : Reports (ofRat value) := by
  rw [ofRat]
  split <;> nofun

theorem Duration.read_reports (text : Text) : Reports (read text) := by
  rw [read]
  split
  · nofun
  · split
    · exact ofRat_reports _
    · nofun

theorem Duration.ofJson_reports (value : Json.Value) : Reports (ofJson value) := by
  rw [ofJson.eq_def]
  split
  · exact ofRat_reports _
  · exact read_reports _
  · exact read_reports _
  · nofun

namespace TimedChord

theorem read_reports (token : Text) : Reports (read token) := by
  rw [read]
  refine .guard nofun ?_
  split
  · refine .guard nofun ?_
    exact (Chord.read_reports _).bind fun _ => (Duration.read_reports _).bind fun _ => .ok _
  · exact (Chord.read_reports _).bind fun _ => .ok _

theorem ofJson_reports (value : Json.Value) : Reports (ofJson value) := by
  rw [ofJson.eq_def]
  split
  · exact read_reports _
  · split
    · dsimp only
      split
      · exact (Duration.ofJson_reports _).bind fun _ =>
          (Chord.read_reports _).bind fun _ => .ok _
      · split
        · exact read_reports _
        · exact (Chord.read_reports _).map _
    · nofun
  · nofun

end TimedChord

theorem Progression.ofTokens_reports (tokens : List Text) : Reports (ofTokens tokens) :=
  .mapM TimedChord.read_reports tokens

theorem Progression.read_reports (text : Text) : Reports (read text) := by
  rw [read]
  split
  · rw [ofJson]
    split
    · exact .mapM TimedChord.ofJson_reports _
    · nofun
  · exact ofTokens_reports _

namespace Grid

theorem readBeat_reports (bar beat : Nat) (text : Text) : Reports (readBeat bar beat text) := by
  rw [readBeat]
  refine .guard nofun (.guard nofun ?_)
  exact .mapM Chord.read_reports _

theorem readBar_reports (options : Options) (bar : Nat) (text : Text) :
    Reports (readBar options bar text) := by
  rw [readBar]
  refine .guard nofun ?_
  exact .mapM (fun entry : Text × Nat => readBeat_reports bar entry.2 entry.1) _

theorem check_reports (options : Options) : Reports options.check := by
  rw [Options.check]
  split <;> nofun

theorem bars_reports (text : Text) : Reports (bars text) := by
  rw [bars]
  split <;> nofun

theorem readBeats_reports (options : Options) (text : Text) :
    Reports (readBeats options text) := by
  rw [readBeats]
  refine .guard nofun ((check_reports options).bind fun _ => (bars_reports text).bind fun _ => ?_)
  exact (Reports.mapM (fun entry : Text × Nat => readBar_reports options entry.2 entry.1) _).bind
    fun _ => .ok _

theorem read_reports (options : Options) (text : Text) : Reports (read options text) := by
  rw [read]
  exact (readBeats_reports options text).bind fun _ => .guard nofun (.ok _)

end Grid

/-- No text stops the program in any notation. -/
theorem Progression.readIn_reports (mode : Mode) (options : Grid.Options) (text : Text) :
    Reports (readIn mode options text) := by
  rw [readIn]
  split
  · exact (Grid.read_reports options text).map _
  · exact (read_reports text).map _

/-- No settings stop the program. -/
theorem Settings.read_reports (text : Text) : Reports (read text) := by
  rw [read]
  split
  · exact .ok _
  · split
    · rw [check]
      split
      · nofun
      · split
        · nofun
        · split <;> nofun
    · nofun

end JazzGrammar
