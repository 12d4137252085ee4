/-
Bookkeeping of sessions: how each command changes the total duration, and that a command that fails
changes nothing.
-/

import JazzGrammar.Proofs.Detection
import JazzGrammar.Proofs.Scaling
import JazzGrammar.Proofs.Time
import JazzGrammar.Session

namespace JazzGrammar

namespace Grid

variable {options : Options} {progression : Progression}

/-- What is read from a written text lasts for the bars that were begun. -/
theorem total_of_read_write {text : Text} {found : Progression} (nonempty : progression ≠ [])
    (written : write options progression = .ok text) (accepted : read options text = .ok found) :
    found.total =
      options.beatsPerBar.toNat * ⌈progression.total / options.beatsPerBar.toNat⌉₊ := by
  obtain ⟨full, slots, filled, fills, _, rfl⟩ := exists_fillsBars_of_read nonempty written accepted
  rw [Progression.total_mergeRuns, filled.total (beatsPerBar_positive fills.checked)]

/-- The empty progression is written as the empty text, which is no grid. -/
theorem nonempty_of_read_write {text : Text} {found : Progression}
    (written : write options progression = .ok text) (accepted : read options text = .ok found) :
    progression ≠ [] := by
  intro empty
  rw [empty] at written
  rw [← Except.ok.inj written] at accepted
  exact absurd (lines_of_read accepted).1 (by decide)

end Grid

/-- Scaling multiplies the duration by a positive factor. -/
theorem TimedChord.scale_spec {timed scaled : TimedChord} {factor : Rat}
    (done : timed.scale factor = .ok scaled) :
    0 < factor ∧ scaled.duration.value = factor * timed.duration.value := by
  obtain ⟨duration, found, rfl⟩ := map_eq_ok.1 done
  have value : duration.value = timed.duration.value * factor := Duration.ofRat_eq_ok.1 found
  have positive := duration.positive
  rw [value] at positive
  exact ⟨(mul_pos_iff_of_pos_left timed.duration.positive).1 positive, value.trans (mul_comm _ _)⟩

namespace Progression

variable {progression scaled : Progression} {factor : Rat}

/-- Scaling succeeds for a positive factor and for no chords at all. -/
theorem exists_scale_iff :
    (∃ scaled, progression.scale factor = .ok scaled) ↔ progression = [] ∨ 0 < factor := by
  constructor
  · intro done
    obtain ⟨scaled, done⟩ := done
    rw [scale, mapM_eq_ok] at done
    cases done with
    | nil => exact .inl rfl
    | cons one _ => exact .inr (TimedChord.scale_spec one).1
  · intro allowed
    cases allowed with
    | inl empty => exact ⟨[], by rw [empty]; rfl⟩
    | inr positive => exact ⟨_, scale_eq_image progression positive⟩

theorem total_scale (done : progression.scale factor = .ok scaled) :
    scaled.total = factor * progression.total := by
  rw [scale, mapM_eq_ok] at done
  induction done with
  | nil => rw [total_nil, mul_zero]
  | cons one _ ih => rw [total_cons, total_cons, (TimedChord.scale_spec one).2, ih, mul_add]

end Progression

namespace Session

/-- What a text adds to a session. -/
def heard (options : Grid.Options) (mode : Mode) (text : Text) : Rat :=
  match Progression.readIn mode options text with
  | .ok (progression, _) => progression.total
  | .error _ => 0

/-- The total duration behind a command, from the one before it and the layout. -/
def Command.due (options : Grid.Options) (total : Rat) : Command → Rat
  | .load mode text => heard options mode text
  | .append mode text => total + heard options mode text
  | .scale factor => factor * total
  | .regrid => options.beatsPerBar.toNat * ⌈total / options.beatsPerBar.toNat⌉₊
  | .setOptions _ | .step _ | .applyRule _ _ | .render => total

/-- The layout behind a command. -/
def Command.layout (options : Grid.Options) : Command → Grid.Options
  | .setOptions change => options.change change
  | _ => options

/-- What a command needs to succeed. -/
def Feasible (session : Session) : Command → Prop
  | .load mode text | .append mode text =>
    ∃ found, Progression.readIn mode session.options text = .ok found
  | .scale factor => session.progression = [] ∨ 0 < factor
  | .render => ∃ text, Grid.write session.options session.progression = .ok text
  | .regrid => session.progression ≠ [] ∧
    ∃ text, Grid.write session.options session.progression = .ok text
  | .setOptions _ | .step _ | .applyRule _ _ => True

/-- A session beside an account of its total duration, in which a command is entered when it
succeeds. -/
def post (entry : Session × Rat) (command : Command) : Session × Rat :=
  match entry.1.run command with
  | .ok (next, _) => (next, command.due entry.1.options entry.2)
  | .error _ => entry

variable {session next : Session} {command : Command} {reply : Reply}

/-- Picking a step keeps the total when every step does. -/
theorem take_spec {steps : List Step} (pick : Int)
    (conserved : ∀ step ∈ steps, step.result.total = session.progression.total)
    (taken : session.take steps pick = (next, reply)) :
    next.options = session.options ∧ next.progression.total = session.progression.total := by
  rw [take] at taken
  split at taken
  · rename_i step found
    obtain ⟨rfl, _⟩ := Prod.mk.inj taken
    exact ⟨rfl, conserved step (List.mem_of_getElem? found)⟩
  · obtain ⟨rfl, _⟩ := Prod.mk.inj taken
    exact ⟨rfl, rfl⟩

/-- An application of a rule keeps the total. -/
theorem total_result {rule : Rule} {progression : Progression} {step : Step}
    (member : step ∈ rule.steps progression) : step.result.total = progression.total := by
  obtain ⟨_, shape, admits⟩ := Rule.mem_steps.1 member
  rw [shape, Step.result]
  simp only [Progression.total_append, admits.total]

/-- One command: what it makes of the layout and the total duration. -/
theorem run_spec (done : session.run command = .ok (next, reply)) :
    next.options = command.layout session.options ∧
      next.progression.total = command.due session.options session.progression.total := by
  cases command with
  | load mode text =>
    obtain ⟨⟨loaded, resolved⟩, read, same⟩ := bind_eq_ok.1 done
    obtain ⟨rfl, _⟩ := Prod.mk.inj (Except.ok.inj same)
    exact ⟨rfl, by rw [Command.due, heard, read]⟩
  | append mode text =>
    obtain ⟨⟨more, resolved⟩, read, same⟩ := bind_eq_ok.1 done
    obtain ⟨rfl, _⟩ := Prod.mk.inj (Except.ok.inj same)
    exact ⟨rfl, by rw [Command.due, heard, read, Progression.total_append]⟩
  | setOptions change =>
    obtain ⟨rfl, _⟩ := Prod.mk.inj (Except.ok.inj done)
    exact ⟨rfl, rfl⟩
  | step pick =>
    refine take_spec pick ?_ (Except.ok.inj done)
    intro step member
    exact total_result (Progression.mem_steps member)
  | applyRule rule pick =>
    exact take_spec pick (fun step member => total_result member) (Except.ok.inj done)
  | scale factor =>
    obtain ⟨scaled, found, same⟩ := bind_eq_ok.1 done
    obtain ⟨rfl, _⟩ := Prod.mk.inj (Except.ok.inj same)
    exact ⟨rfl, Progression.total_scale found⟩
  | render =>
    obtain ⟨text, written, same⟩ := bind_eq_ok.1 done
    obtain ⟨rfl, _⟩ := Prod.mk.inj (Except.ok.inj same)
    exact ⟨rfl, rfl⟩
  | regrid =>
    obtain ⟨text, written, behind⟩ := bind_eq_ok.1 done
    obtain ⟨found, accepted, same⟩ := bind_eq_ok.1 behind
    obtain ⟨rfl, _⟩ := Prod.mk.inj (Except.ok.inj same)
    exact ⟨rfl, Grid.total_of_read_write (Grid.nonempty_of_read_write written accepted) written
      accepted⟩

/-- A command succeeds exactly when it has what it needs. -/
theorem exists_run_iff : (∃ done, session.run command = .ok done) ↔ session.Feasible command := by
  cases command with
  | load mode text => exact exists_bind_iff fun _ => ⟨_, rfl⟩
  | append mode text => exact exists_bind_iff fun _ => ⟨_, rfl⟩
  | setOptions change => exact iff_of_true ⟨_, rfl⟩ trivial
  | step pick => exact iff_of_true ⟨_, rfl⟩ trivial
  | applyRule rule pick => exact iff_of_true ⟨_, rfl⟩ trivial
  | scale factor =>
    rw [Feasible, ← Progression.exists_scale_iff]
    exact exists_bind_iff fun _ => ⟨_, rfl⟩
  | render => exact exists_bind_iff fun _ => ⟨_, rfl⟩
  | regrid =>
    constructor
    · intro succeeds
      obtain ⟨done, found⟩ := succeeds
      obtain ⟨text, written, behind⟩ := bind_eq_ok.1 found
      obtain ⟨found, accepted, _⟩ := bind_eq_ok.1 behind
      exact ⟨Grid.nonempty_of_read_write written accepted, text, written⟩
    · intro feasible
      obtain ⟨nonempty, text, written⟩ := feasible
      obtain ⟨full, slots, _, fills, rfl⟩ := Grid.exists_fillsBars nonempty written
      exact ⟨_, bind_eq_ok.2 ⟨_, written, bind_eq_ok.2 ⟨_, fills.read, rfl⟩⟩⟩

theorem after_of_ok (done : session.run command = .ok (next, reply)) :
    session.after command = next := by
  rw [after, done]

theorem after_of_error {fault : Fault} (failed : session.run command = .error fault) :
    session.after command = session := by
  rw [after, failed]

/-- An entry in the account keeps it equal to the total duration. -/
theorem post_eq (session : Session) (command : Command) :
    post (session, session.progression.total) command =
      (session.after command, (session.after command).progression.total) := by
  rw [post]
  split
  · rename_i next reply done
    rw [after_of_ok done, (run_spec done).2]
  · rename_i fault failed
    rw [after_of_error failed]

/-- The account of a whole run. -/
theorem foldl_post (commands : List Command) (session : Session) :
    commands.foldl post (session, session.progression.total) =
      (commands.foldl after session, (commands.foldl after session).progression.total) := by
  induction commands generalizing session with
  | nil => rfl
  | cons command rest ih => rw [List.foldl_cons, List.foldl_cons, post_eq, ih]

/-- Sessions keep account of time. Whatever commands lead to a session, its durations are positive
and its total is what the account of these commands shows, which starts with zero and in which the
commands that succeed are entered. A further command succeeds when it has what it needs: it then
changes the layout and the total as it is entered, and else it changes nothing. -/
theorem accounting (commands : List Command) :
    let session := commands.foldl after empty
    (∀ timed ∈ session.progression, 0 < timed.duration.value) ∧
    commands.foldl post (empty, 0) = (session, session.progression.total) ∧
    ∀ command,
      ((∃ done, session.run command = .ok done) ↔ session.Feasible command) ∧
      (∀ fault, session.run command = .error fault → session.after command = session) ∧
      ∀ next reply, session.run command = .ok (next, reply) → session.after command = next ∧
        next.options = command.layout session.options ∧
        next.progression.total = command.due session.options session.progression.total := by
  intro session
  refine ⟨fun timed _ => timed.duration.positive, foldl_post commands empty, fun command => ?_⟩
  refine ⟨exists_run_iff, fun fault failed => after_of_error failed, fun next reply done => ?_⟩
  exact ⟨after_of_ok done, run_spec done⟩

/-- Three beats are halved and fill one bar of two beats; a factor of zero is refused. -/
theorem accounting_three_halves :
    let commands : List Command :=
      [.setOptions ⟨some 2, none, none⟩, .load .auto ['I', '@', '3'], .scale (1 / 2)]
    let session := commands.foldl after empty
    commands.foldl post (empty, 0) = (session, 3 / 2) ∧
    session.run (.scale 0) = .error (.duration .notPositive) ∧
    session.after (.scale 0) = session ∧ session.Feasible .regrid ∧
    ∃ next reply, session.run .regrid = .ok (next, reply) ∧ session.after .regrid = next ∧
      next.options = session.options ∧ next.progression.total = 2 := by
  intro commands session
  obtain ⟨_, account, further⟩ := accounting commands
  have total : session.progression.total = 3 / 2 := by decide +kernel
  have refused : session.progression.scale 0 = .error (.duration .notPositive) := by
    decide +kernel
  have failed : session.run (.scale 0) = .error (.duration .notPositive) := by
    rw [run, refused]
    rfl
  have written : Grid.write session.options session.progression =
      .ok ['|', ' ', 'I', ' ', '/', ' ', 'I', ' ', '|'] := by decide +kernel
  have feasible : session.Feasible .regrid := ⟨by decide +kernel, _, written⟩
  obtain ⟨⟨next, reply⟩, done⟩ := (further .regrid).1.2 feasible
  obtain ⟨same, layout, due⟩ := (further .regrid).2.2 next reply done
  have two : (session.after .regrid).progression.total = 2 := by decide +kernel
  exact ⟨total ▸ account, failed, (further (.scale 0)).2.1 _ failed, feasible, next, reply, done,
    same, layout, same ▸ two⟩

end Session

end JazzGrammar
