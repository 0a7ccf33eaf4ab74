import Handheld.Board
import Handheld.Picture

/-!
# The second core

There is one right to start core 1, which goes to the first who asks, and whatever it starts runs
for good. The simulator starts the first entry that reaches it and ignores every later one. A stop
of core 1 is kept as its fault. Core 1 runs in turns, which are taken one at a time.

* `entry_start_of_isSome`: what runs on core 1 never changes.
* `launch_without_platform`, `launch_of_taken`: when a launch is refused and what it leaves.
-/

namespace Handheld

/-- What core 1 can be started with. -/
inductive Entry where
  /-- Do nothing, for ever. -/
  | park
  /-- Do nothing for a number of turns, then throw. -/
  | fail (delay : Nat) (payload : Payload)
  /-- Add one to a shared counter a number of times, under its lock. -/
  | count (rounds : Nat)
  /-- Render pictures, for ever. -/
  | render
deriving DecidableEq, Repr

/-- The second core and what it shares with the first. -/
structure SecondCore where
  /-- The right to start it has been handed out. -/
  taken : Bool
  /-- What it was started with. -/
  entry : Option Entry
  /-- The turns that it has had. -/
  turns : Nat
  /-- The turns that it gets during each of core 0's waits for the refresh. -/
  pace : Nat
  /-- The text it stopped with. -/
  fault : Option String
  /-- Its own part of rendering pictures. -/
  renderer : Renderer
  /-- The latest finished picture. -/
  picture : Mutex Picture

namespace SecondCore

/-- The second core after a reset. -/
def initial : SecondCore := ⟨false, none, 0, 0, none, .initial, .new .blank⟩

instance : Inhabited SecondCore := ⟨initial⟩

/-- Start core 1. Only the first start counts. -/
def start (c : SecondCore) (entry : Entry) : SecondCore :=
  if c.entry.isSome then c else { c with entry := some entry }

/-- One turn of core 1. A core that has not started or has stopped does nothing. -/
def turn (c : SecondCore) : SecondCore :=
  match c.fault, c.entry with
  | some _, _ | none, none => c
  | none, some entry =>
    let c := { c with turns := c.turns + 1 }
    match entry with
    | .park | .count _ => c
    -- The first turn after the delay throws.
    | .fail delay payload => if c.turns ≤ delay then c else { c with fault := some payload.message }
    | .render =>
      match c.renderer.turn c.picture with
      | .ok (renderer, picture) => { c with renderer, picture }
      | .error p => { c with fault := some p.message }

/-- A number of turns of core 1. -/
def run (c : SecondCore) : Nat → SecondCore
  | 0 => c
  | n + 1 => c.turn.run n

/-- The turns that core 1 gets while core 0 waits. -/
def runWaiting (c : SecondCore) : SecondCore := c.run c.pace

/-- Ask for the right to start core 1: whether it was still there. -/
def takeRight : Step SecondCore Bool := do
  let c ← get
  set { c with taken := true }
  return !c.taken

/-- Start core 1 with the right in hand. Before the simulator has been built there is no core 1, and
the entry is lost. -/
def launchWithRight (b : Board) (entry : Entry) : Step SecondCore Unit :=
  match b.platform with
  | none => throw (.panic .noPlatform)
  | some _ => modify fun c => if b.simulator.isSome then c.start entry else c

/-- Ask for the right and start core 1. Without a platform the right is left alone. -/
def launch (b : Board) (entry : Entry) : Step SecondCore Unit :=
  match b.platform with
  | none => throw (.panic .noPlatformForCore1)
  | some _ => do
    if ← takeRight then launchWithRight b entry
    else throw (.panic .core1Launched)

/-- A turn leaves the right, what core 1 was started with and its pace alone. -/
theorem turn_eq (c : SecondCore) :
    c.turn = { c with
      turns := c.turn.turns
      fault := c.turn.fault
      renderer := c.turn.renderer
      picture := c.turn.picture } := by
  obtain ⟨taken, entry, turns, pace, fault, renderer, picture⟩ := c
  unfold turn
  rcases fault with _ | text
  · rcases entry with _ | _ | ⟨delay, payload⟩ | _ | _
    · rfl
    · rfl
    · simp only
      split <;> rfl
    · rfl
    · simp only
      cases renderer.turn picture <;> rfl
  · cases entry <;> rfl

/-- A turn does not change what core 1 was started with. -/
@[simp]
theorem entry_turn (c : SecondCore) : c.turn.entry = c.entry := by
  rw [turn_eq]

/-- A turn does not hand out the right. -/
@[simp]
theorem taken_turn (c : SecondCore) : c.turn.taken = c.taken := by
  rw [turn_eq]

/-- What runs on core 1 never changes. -/
theorem entry_start_of_isSome {c : SecondCore} (h : c.entry.isSome) (entry : Entry) :
    c.start entry = c := by
  simp [start, h]

/-- Without a platform a launch is refused and changes nothing. -/
theorem launch_without_platform {b : Board} (entry : Entry) (c : SecondCore)
    (h : b.platform = none) : (launch b entry).start c = (.error (.panic .noPlatformForCore1), c) := by
  unfold launch
  rw [h]
  rfl

/-- With the right gone a launch is refused and starts nothing. -/
theorem launch_of_taken {b : Board} (entry : Entry) {c : SecondCore} (hb : b.platform.isSome)
    (h : c.taken) : (launch b entry).start c = (.error (.panic .core1Launched), c) := by
  obtain ⟨taken, _, _, _, _, _, _⟩ := c
  obtain ⟨platform, hplatform⟩ := Option.isSome_iff_exists.1 hb
  cases h
  unfold launch
  rw [hplatform]
  rfl

end SecondCore

end Handheld
