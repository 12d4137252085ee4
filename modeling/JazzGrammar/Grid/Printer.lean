/-
Writing progressions as grids.
-/

import JazzGrammar.Grid
import JazzGrammar.Run

namespace JazzGrammar.Grid

/-- The slots that a chord fills, as far as their number fits a word. -/
def slotCount (subdivision : Nat) (duration : Duration) : Except Fault Nat :=
  match duration.slots? subdivision with
  | some count =>
    if count < UInt64.size then .ok count else .error (.alignment duration.write subdivision)
  | none => .error (.alignment duration.write subdivision)

/-- The runs of slots, with the chords' symbols. Their number stays within its limit at every
chord. -/
def runs (subdivision filled : Nat) : Progression → Except Fault (List (Run Text))
  | [] => .ok []
  | timed :: rest => do
    let count ← slotCount subdivision timed.duration
    if slotLimit < filled + count then
      throw (.argument .gridTooLong)
    let later ← runs subdivision (filled + count) rest
    return ⟨timed.chord.write, count⟩ :: later

/-- The slots of a bar are counted in a word, and the program stops when it cannot hold them. -/
def slotsPerBar (options : Options) (subdivision : Nat) : Except Fault Nat :=
  let slots := options.beatsPerBar.toNat * subdivision
  if slots < UInt64.size then .ok slots else .error (.stopped .overflow)

/-- The greatest number of slots in a list. A list takes less than 2^63 bytes, and a slot 24. -/
def slotCapacity : Nat := 384307168202282325

/-- The last slot is repeated up to the end of its bar. The program stops when a list cannot hold
the slots. -/
def fillBar (options : Options) (perBar : Nat) (slots : List Text) : Except Fault (List Text) :=
  let excess := slots.length % perBar
  if excess = 0 then .ok slots
  else if options.padWithLastChord then
    if slotCapacity < slots.length + (perBar - excess) then .error (.stopped .capacity)
    else .ok (slots ++ (slots.getLast?.map (List.replicate (perBar - excess))).getD [])
  else .error (.grid .incompleteBar)

/-- A beat lists as few symbols as give its slots back. -/
def writeBeat (slots : List Text) : Text :=
  Text.join [','] (Run.compact slots)

def writeBar (subdivision : Nat) (slots : List Text) : Text :=
  ['|', ' '] ++ Text.join [' ', '/', ' '] ((Run.chunks subdivision slots).map writeBeat) ++
    [' ', '|']

/-- One bar is written on each line. The empty progression has no bars. -/
def write (options : Options) (progression : Progression) : Except Fault Text := do
  if progression.isEmpty then
    return []
  options.check
  let subdivision := Duration.commonSubdivision progression.durations
  if options.maxSubdivisions.toNat < subdivision then
    throw (.subdivision subdivision options.maxSubdivisions)
  let runs ← runs subdivision 0 progression
  let perBar ← slotsPerBar options subdivision
  let slots ← fillBar options perBar (Run.expand runs)
  return Text.join ['\n'] ((Run.chunks perBar slots).map (writeBar subdivision))

end JazzGrammar.Grid
