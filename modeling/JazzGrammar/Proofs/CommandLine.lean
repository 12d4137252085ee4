/-
Runs of the program: a run fails for its settings, its progression or its depth, before anything is
printed, and for nothing else.
-/

import JazzGrammar.CommandLine
import JazzGrammar.Proofs.Exploration
import JazzGrammar.Proofs.Report
import JazzGrammar.Proofs.Reported

namespace JazzGrammar

/-- An exploration fails for its depth only. -/
theorem Progression.explore_eq_error {progression : Progression} {depth : Int} {fault : Fault} :
    progression.explore depth = .error fault ↔ depth < 0 ∧ .argument .negativeDepth = fault := by
  rw [explore]
  split
  · rename_i negative
    simp [negative]
  · rename_i allowed
    obtain ⟨levels, found, _⟩ := progression.exists_levels depth.toNat
    rw [explore, if_neg (by omega), Int.toNat_natCast] at found
    simp [found, allowed]

/-- An exploration lists what is reached within its depth. -/
theorem Progression.reaches_of_explore {progression : Progression} {depth : Int}
    {levels : List (List (List Text))} (explored : progression.explore depth = .ok levels)
    {tokens : List Text} (member : tokens ∈ levels.flatten) :
    ∃ count ≤ depth.toNat, Reaches progression.tokens count tokens := by
  have allowed : ¬depth < 0 := by
    intro negative
    rw [explore_eq_error.2 ⟨negative, rfl⟩] at explored
    cases explored
  obtain ⟨others, found, length, holds⟩ := progression.exists_levels depth.toNat
  rw [Int.toNat_of_nonneg (Int.not_lt.1 allowed), explored] at found
  obtain rfl := Except.ok.inj found
  obtain ⟨level, listed, inside⟩ := List.mem_flatten.1 member
  obtain ⟨index, entry⟩ := List.mem_iff_getElem?.1 listed
  have within := (List.getElem?_eq_some_iff.1 entry).1
  exact ⟨index, by omega, ((holds index level entry tokens).1 inside).1⟩

/-- Settings are loaded only with a depth that is not negative. -/
theorem Settings.depth_of_read {text : Text} {settings : Settings}
    (loaded : read text = .ok settings) : 0 ≤ settings.depth := by
  rw [read] at loaded
  split at loaded
  · obtain rfl := Except.ok.inj loaded
    decide
  · split at loaded
    · rename_i unchecked _
      rw [check] at loaded
      split at loaded
      · cases loaded
      · rename_i allowed
        repeat' split at loaded
        all_goals cases loaded
        exact Int.not_lt.1 allowed
    · cases loaded

namespace CommandLine

variable {arguments : Arguments} {file : Text → Except Text Text} {fault : Fault}

/-- The faults for which a run is refused: its settings are not loaded, or else its progression is
not read in the mode and with the layout of the run, or else it explores to a negative depth. The
mode and the depth are those of the arguments if they are given and those of the settings if not. -/
inductive Arguments.Refused (arguments : Arguments) (file : Text → Except Text Text) : Fault → Prop
  | settings {fault : Fault} (unloaded : arguments.fileSettings file = .error fault) :
    Refused arguments file fault
  | progression {fault : Fault} {base : Settings}
    (loaded : arguments.fileSettings file = .ok base)
    (unread : Progression.readIn (arguments.mode.getD base.mode) base.grid arguments.progression =
      .error fault) :
    Refused arguments file fault
  | depth {base : Settings} {found : Progression × Notation}
    (loaded : arguments.fileSettings file = .ok base)
    (read : Progression.readIn (arguments.mode.getD base.mode) base.grid arguments.progression =
      .ok found)
    (explored : arguments.steps = false) (negative : arguments.depth.getD base.depth < 0) :
    Refused arguments file (.argument .negativeDepth)

/-- The progressions that a run lists: the results of the steps, or all that is reached within the
depth. -/
def Arguments.Lists (arguments : Arguments) (base : Settings) (progression listed : Progression) :
    Prop :=
  if arguments.steps then ∃ step ∈ progression.steps, step.result = listed
  else ∃ count ≤ (arguments.depth.getD base.depth).toNat,
    Reaches progression.tokens count listed.tokens

/-- The machine can lay out the bars of every grid that a run shows. What needs too many
subdivisions or too many slots has no grid. -/
def Arguments.Affordable (arguments : Arguments) (file : Text → Except Text Text) : Prop :=
  arguments.grid = true → arguments.json = false → ∀ base progression resolved listed,
    arguments.fileSettings file = .ok base →
    Progression.readIn (arguments.mode.getD base.mode) base.grid arguments.progression =
      .ok (progression, resolved) →
    arguments.Lists base progression listed →
    Duration.commonSubdivision listed.durations ≤ base.grid.maxSubdivisions.toNat →
    listed.total * Duration.commonSubdivision listed.durations ≤ slotLimit →
    Grid.Affordable base.grid listed

theorem Arguments.depth_of_fileSettings {base : Settings}
    (loaded : arguments.fileSettings file = .ok base) : 0 ≤ base.depth := by
  rw [fileSettings] at loaded
  split at loaded
  · split at loaded
    · exact Settings.depth_of_read loaded
    · cases loaded
  · obtain rfl := Except.ok.inj loaded
    decide

/-- Settings that are not loaded are reported. -/
theorem Arguments.fileSettings_reports : Reports (arguments.fileSettings file) := by
  rw [fileSettings]
  split
  · split
    · exact Settings.read_reports _
    · nofun
  · exact .ok _

/-- What a run is refused for is reported. -/
theorem Arguments.Refused.ne_stopped (refused : arguments.Refused file fault) (cause : Stop) :
    fault ≠ .stopped cause := by
  rintro rfl
  cases refused with
  | settings unloaded => exact fileSettings_reports cause unloaded
  | progression loaded unread => exact Progression.readIn_reports _ _ _ cause unread

/-- The layout of the grids that a run shows, if it shows any. -/
def Arguments.layout (arguments : Arguments) (base : Settings) : Option Grid.Options :=
  if arguments.grid then some base.grid else none

theorem Arguments.settings_of_loaded {base : Settings}
    (loaded : arguments.fileSettings file = .ok base) : arguments.settings file = .ok { base with
      mode := arguments.mode.getD base.mode
      depth := arguments.depth.getD base.depth } := by
  rw [settings, loaded]
  rfl

/-- A run whose settings are loaded and whose progression is read is a report on the progression. -/
theorem Arguments.run_of_read {base : Settings} {progression : Progression} {resolved : Notation}
    (loaded : arguments.fileSettings file = .ok base)
    (read : Progression.readIn (arguments.mode.getD base.mode) base.grid arguments.progression =
      .ok (progression, resolved)) :
    arguments.run file =
      if arguments.steps then arguments.reportSteps (arguments.layout base) progression
      else arguments.reportLevels (arguments.layout base) (arguments.depth.getD base.depth)
        progression := by
  rw [run, settings_of_loaded loaded]
  simp only [liftM, monadLift, MonadLift.monadLift, Printed.silent_ok_bind, read, layout]

/-- A refused run prints nothing and has the fault for which it is refused. -/
theorem Arguments.Refused.run (refused : arguments.Refused file fault) :
    arguments.run file = .silent (.error fault) := by
  cases refused with
  | settings unloaded =>
    rw [Arguments.run, Arguments.settings, unloaded]
    rfl
  | progression loaded unread =>
    rw [Arguments.run, settings_of_loaded loaded]
    simp only [liftM, monadLift, MonadLift.monadLift, Printed.silent_ok_bind, unread,
      Printed.silent_error_bind]
  | depth loaded read explored negative =>
    rw [run_of_read loaded read, if_neg (by simp [explored]), reportLevels,
      Progression.explore_eq_error.2 ⟨negative, rfl⟩]
    rfl

/-- Where a grid that a run shows has no room, the run stops. -/
theorem Arguments.stopped_of_grid {base : Settings} {progression listed : Progression}
    {resolved : Notation} (lines : arguments.json = false)
    (loaded : arguments.fileSettings file = .ok base)
    (read : Progression.readIn (arguments.mode.getD base.mode) base.grid arguments.progression =
      .ok (progression, resolved))
    (member : arguments.Lists base progression listed)
    (failed : (Report.grid (arguments.layout base) listed.tokens).result = .error fault) :
    (∃ cause, fault = .stopped cause) ∧ ¬arguments.Affordable file := by
  obtain ⟨options, given, cause, rfl, stopped⟩ := Report.grid_eq_error failed
  rw [layout] at given
  split at given
  · rename_i grids
    obtain rfl := Option.mem_some.1 given
    have nonempty : listed ≠ [] := by
      rintro rfl
      contradiction
    obtain ⟨_, sparse, short, scarce⟩ := (Grid.stops_iff nonempty).1 ⟨cause, stopped⟩
    refine ⟨⟨cause, rfl⟩, fun affordable => scarce ?_⟩
    exact affordable grids lines base progression resolved listed loaded read member sparse short
  · cases given

/-- A report on steps ends with a fault only in a grid of the result of one of them. -/
theorem Arguments.exists_of_reportSteps_eq_error {layout : Option Grid.Options}
    {progression : Progression}
    (failed : (arguments.reportSteps layout progression).result = .error fault) :
    arguments.json = false ∧ ∃ step ∈ progression.steps,
      (Report.grid layout step.result.tokens).result = .error fault := by
  rw [reportSteps] at failed
  split at failed
  · contradiction
  · rename_i lines
    exact ⟨Bool.eq_false_iff.2 lines, Report.exists_of_steps_eq_error failed⟩

/-- A report on an exploration ends with a fault for a negative depth, or else only in a grid of
what is reached within the depth. -/
theorem Arguments.exists_of_reportLevels_eq_error {layout : Option Grid.Options} {depth : Int}
    {progression : Progression}
    (failed : (arguments.reportLevels layout depth progression).result = .error fault) :
    (depth < 0 ∧ .argument .negativeDepth = fault) ∨
      arguments.json = false ∧ ∃ listed : Progression,
        (∃ count ≤ depth.toNat, Reaches progression.tokens count listed.tokens) ∧
        (Report.grid layout listed.tokens).result = .error fault := by
  rw [reportLevels, Printed.result_bind, bind_eq_error] at failed
  obtain unexplored | ⟨levels, explored, ended⟩ := failed
  · exact .inl (Progression.explore_eq_error.1 unexplored)
  · split at ended
    · contradiction
    · rename_i lines
      obtain ⟨tokens, member, ended⟩ := Report.exists_of_levels_eq_error ended
      obtain ⟨count, within, reaches⟩ := Progression.reaches_of_explore explored member
      obtain ⟨listed, rfl⟩ := reaches.canonical
      exact .inr ⟨Bool.eq_false_iff.2 lines, listed, ⟨count, within, reaches⟩, ended⟩

/-- A run that ends with a fault is refused for it, or else it is stopped in a grid. -/
theorem Arguments.refused_or_stopped (failed : (arguments.run file).result = .error fault) :
    arguments.Refused file fault ∨
      (∃ cause, fault = .stopped cause) ∧ ¬arguments.Affordable file := by
  cases loaded : arguments.fileSettings file with
  | error other =>
    have refused := Refused.settings loaded
    rw [refused.run] at failed
    exact .inl (Except.error.inj failed ▸ refused)
  | ok base =>
    cases read : Progression.readIn (arguments.mode.getD base.mode) base.grid
        arguments.progression with
    | error other =>
      have refused := Refused.progression loaded read
      rw [refused.run] at failed
      exact .inl (Except.error.inj failed ▸ refused)
    | ok found =>
      obtain ⟨progression, resolved⟩ := found
      rw [run_of_read loaded read] at failed
      by_cases steps : arguments.steps = true
      · rw [if_pos steps] at failed
        obtain ⟨lines, step, member, ended⟩ := exists_of_reportSteps_eq_error failed
        refine .inr (stopped_of_grid lines loaded read ?_ ended)
        rw [Lists, if_pos steps]
        exact ⟨step, member, rfl⟩
      · rw [if_neg steps] at failed
        obtain ⟨negative, rfl⟩ | ⟨lines, listed, reached, ended⟩ :=
          exists_of_reportLevels_eq_error failed
        · exact .inl (.depth loaded read (Bool.eq_false_iff.2 steps) negative)
        · refine .inr (stopped_of_grid lines loaded read ?_ ended)
          rw [Lists, if_neg steps]
          exact reached

theorem Ending.ofResult_of_reported (reported : ∀ cause, fault ≠ .stopped cause) :
    ofResult (.error fault) = .failed fault := by
  cases fault with
  | stopped cause => exact absurd rfl (reported cause)
  | _ => rfl

section Call

variable {texts : List Text} (wording : Wording)
  (asked : read? {} texts = some (.run arguments))

include asked

/-- A call fails with the fault for which its run is refused, and prints nothing. -/
theorem call_of_refused (refused : arguments.Refused file fault) :
    call wording file texts = ⟨[], .failed fault⟩ := by
  rw [call, asked]
  dsimp only
  rw [refused.run, Printed.silent, Ending.ofResult_of_reported refused.ne_stopped]

/-- A call whose run is not refused ends well or is stopped. -/
theorem call_of_accepted (accepted : ∀ fault, ¬arguments.Refused file fault) :
    (call wording file texts).ending = .done ∨
      (∃ cause, (call wording file texts).ending = .stopped cause) ∧ ¬arguments.Affordable file := by
  rw [call, asked]
  dsimp only
  cases result : (arguments.run file).result with
  | ok value => exact .inl rfl
  | error other =>
    obtain refused | ⟨⟨cause, rfl⟩, scarce⟩ := Arguments.refused_or_stopped result
    · exact absurd refused (accepted other)
    · exact .inr ⟨⟨cause, rfl⟩, scarce⟩

/-- The exit status is the one of a failure exactly when the run is refused. -/
theorem status_eq_one_iff :
    (call wording file texts).status = 1 ↔ ∃ fault, arguments.Refused file fault := by
  constructor
  · intro failed
    by_contra refused
    rw [not_exists] at refused
    rw [Outcome.status] at failed
    obtain ended | ⟨⟨cause, ended⟩, _⟩ := call_of_accepted wording asked refused
    · rw [ended] at failed
      contradiction
    · rw [ended] at failed
      exact absurd (show (101 : UInt32) = 1 from failed) (by decide)
  · rintro ⟨fault, refused⟩
    rw [call_of_refused wording asked refused]
    rfl

end Call

/-- The program fails only before it prints. A call for its version or its use never fails. A run
ends with the status of a failure exactly when it is refused, and then it prints nothing but the
message of the fault for which it is refused. Any other run ends without errors when the machine can
lay out the bars of all grids that it shows. The settings alone never ask for a negative depth. -/
theorem fails_before_printing (wording : Wording) (file : Text → Except Text Text)
    (texts : List Text) :
    let outcome := call wording file texts
    (read? {} texts = some .version ∨ read? {} texts = some .help →
      outcome.status = 0 ∧ outcome.errors wording = []) ∧
    ∀ arguments, read? {} texts = some (.run arguments) →
      (outcome.status = 1 ↔ ∃ fault, arguments.Refused file fault) ∧
      (∀ fault, arguments.Refused file fault → outcome.output = [] ∧
        outcome.errors wording = "Error: ".toList ++ (fault.message wording).toList ++ ['\n']) ∧
      ((∀ fault, ¬arguments.Refused file fault) → arguments.Affordable file →
        outcome.status = 0 ∧ outcome.errors wording = []) ∧
      ∀ base, arguments.fileSettings file = .ok base → arguments.depth.getD base.depth < 0 →
        ∃ depth < 0, arguments.depth = some depth := by
  intro outcome
  refine ⟨fun about => ?_, fun arguments asked => ⟨status_eq_one_iff wording asked, ?_, ?_, ?_⟩⟩
  · obtain version | help := about
    · simp only [outcome, call, version]
      exact ⟨rfl, rfl⟩
    · simp only [outcome, call, help]
      exact ⟨rfl, rfl⟩
  · intro fault refused
    have failed : outcome = ⟨[], .failed fault⟩ := call_of_refused wording asked refused
    rw [failed]
    exact ⟨rfl, rfl⟩
  · intro accepted affordable
    obtain ended | ⟨_, scarce⟩ := call_of_accepted wording asked accepted
    · rw [Outcome.status, Outcome.errors, ended]
      exact ⟨rfl, rfl⟩
    · exact absurd affordable scarce
  · intro base loaded negative
    have allowed := Arguments.depth_of_fileSettings loaded
    cases given : arguments.depth with
    | none =>
      rw [given, Option.getD_none] at negative
      omega
    | some depth =>
      rw [given, Option.getD_some] at negative
      exact ⟨depth, negative, rfl⟩

/-- A chord of half a beat with its grid, and a depth below zero. -/
theorem fails_before_printing_half_beat :
    let wording : Wording := ⟨fun _ => "", fun _ => "", fun _ => "", [], fun _ => []⟩
    let file : Text → Except Text Text := fun _ => .error []
    let texts : List Text := [['I', '@', '1', '/', '2'], "--grid".toList, "--depth".toList, ['0']]
    let arguments : Arguments := ⟨['I', '@', '1', '/', '2'], none, some 0, false, true, false, none⟩
    let others : List Text := [['I'], "--depth".toList, ['-', '1']]
    let deep : Arguments := ⟨['I'], none, some (-1), false, false, false, none⟩
    read? {} texts = some (.run arguments) ∧ (∀ fault, ¬arguments.Refused file fault) ∧
    arguments.Affordable file ∧ (call wording file texts).status = 0 ∧
    (call wording file texts).errors wording = [] ∧
    read? {} others = some (.run deep) ∧ deep.Refused file (.argument .negativeDepth) ∧
    (call wording file others).status = 1 ∧ (call wording file others).output = [] := by
  intro wording file texts arguments others deep
  have asked : read? {} texts = some (.run arguments) := rfl
  have other : read? {} others = some (.run deep) := rfl
  have loaded : arguments.fileSettings file = .ok {} := rfl
  have half : Progression.readIn .auto {} ['I', '@', '1', '/', '2'] =
      .ok ([⟨⟨⟨0, 0⟩, .major⟩, .half .one⟩], .duration) := by decide +kernel
  have whole : Progression.readIn .auto {} ['I'] = .ok ([.unit ⟨⟨0, 0⟩, .major⟩], .duration) := by
    decide +kernel
  have refused : deep.Refused file (.argument .negativeDepth) :=
    .depth rfl whole rfl (by decide)
  have accepted : ∀ fault, ¬arguments.Refused file fault := by
    intro fault refused
    cases refused with
    | settings unloaded => cases unloaded
    | progression loaded unread =>
      cases loaded
      cases half.symm.trans unread
    | depth loaded _ _ negative =>
      cases loaded
      exact absurd negative (by decide)
  have affordable : arguments.Affordable file := by
    intro _ _ base progression resolved listed loaded read member _ _
    cases loaded
    obtain ⟨rfl, _⟩ := Prod.mk.inj (Except.ok.inj (half.symm.trans read))
    obtain ⟨count, within, reaches⟩ := member
    obtain rfl := Nat.le_zero.1 within
    rw [Progression.tokens_injective reaches]
    exact Grid.Room.affordable (by decide +kernel) (List.cons_ne_nil _ _) (by decide)
  obtain ⟨_, _, ends, _⟩ := (fails_before_printing wording file texts).2 arguments asked
  obtain ⟨fails, silent, _⟩ := (fails_before_printing wording file others).2 deep other
  exact ⟨asked, accepted, affordable, (ends accepted affordable).1, (ends accepted affordable).2,
    other, refused, fails.2 ⟨_, refused⟩, (silent _ refused).1⟩

/-- The version is printed before the settings are looked at, also when they cannot be loaded. -/
theorem version_before_settings :
    let wording : Wording := ⟨fun _ => "", fun _ => "", fun _ => "", [], fun _ => []⟩
    let content : Text := "depth: -1\n".toList
    let texts : List Text := ["--config".toList, ['c'], "--version".toList]
    Settings.read content = .error (.settings (.negativeDepth (-1))) ∧ read? {} texts ≠ none ∧
    (call wording (fun _ => .ok content) texts).status ≠ 1 := by
  have unloaded : Settings.read "depth: -1\n".toList =
      .error (.settings (.negativeDepth (-1))) := by decide +kernel
  have asked : read? {} ["--config".toList, ['c'], "--version".toList] = some .version := rfl
  refine ⟨unloaded, ?_, ?_⟩
  · rw [asked]
    exact Option.some_ne_none _
  · rw [call, asked, Outcome.status]
    decide

end CommandLine

end JazzGrammar
