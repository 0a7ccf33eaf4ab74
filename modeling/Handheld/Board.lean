import Handheld.Button
import Handheld.Core.Numbers
import Handheld.Number.Checked
import Handheld.Platform
import Handheld.Refresh
import Handheld.Snapshot
import Handheld.Step
import Handheld.Time

/-!
# The board

The registers of the device: the installed platform, the display's copy, the buttons, the clock, the
count of refreshes and the numbers of the cores. What asks the device for something stops with a
panic if no platform is installed. A test bench that is installed before the simulator has been
built has a clock and nothing else: it keeps no frame, holds no button and counts no refresh.

The refresh of the simulator comes from a ticker of the host, unless waits end at once. A wait first
takes out the ticks that have fired while nobody waited, and then waits for the next one. So it has
no end if ticks fire as fast as they are taken out, which those of a ticker whose period is zero
always do, and if no tick comes any more.

* `platform_install`: the first platform stays installed.
* `start_waitRefresh`, `start_present`: what a wait and a presentation change, and when they stop.
-/

namespace Handheld

/-- The registers of the device. -/
structure Board where
  /-- The platform that was installed first. -/
  platform : Option Platform
  /-- The setup of the simulator, once it has been built. -/
  simulator : Option SimulatorConfig
  /-- The button register, known bits or not. -/
  buttons : ButtonState
  /-- The display's copy of the last frame. -/
  display : Snapshot
  /-- Frames handed to the display so far. -/
  presented : UInt64
  /-- Waits for a refresh so far. The count wraps. -/
  refreshes : UInt64
  /-- The waits that end before the host's ticks come faster than they are taken out, or cease to
  come: `none` if all of them do. -/
  ticks : Option Nat
  /-- The time. -/
  clock : Clock
  /-- The numbers of the host's threads. -/
  cores : CoreNumbers
  /-- The core that the test bench pretends to be called from. -/
  posing : Option CoreId
deriving DecidableEq

namespace Board

/-- A board on which nothing has been set up. -/
def bare (clock : Clock) : Board :=
  ⟨none, none, .empty, .blank, 0, 0, none, clock, .initial, none⟩

instance : Inhabited Board := ⟨bare default⟩

/-- Install a platform: whether it was the first. -/
def install (b : Board) (platform : Platform) : Bool × Board :=
  match b.platform with
  | none => (true, { b with platform := some platform })
  | some _ => (false, b)

/-- Build the simulator if it is not there yet, and install it. A rate whose period does not fit
stops the caller and leaves the board alone. -/
def installSimulator (config : SimulatorConfig) : Step Board SimulatorConfig := do
  let b ← get
  match b.simulator with
  | some first =>
    set (b.install .simulator).2
    return first
  | none =>
    let _ ← Step.ofExcept config.refresh.period
    set ({ b with simulator := some config }.install .simulator).2
    return config

/-- The installed platform. -/
def require (b : Board) : Except Panic Platform :=
  match b.platform with
  | some p => .ok p
  | none => .error .noPlatform

/-- The present time. -/
def now (b : Board) : Except Panic Instant := b.require.map fun _ => ⟨b.clock.now⟩

/-- The buttons, without bits that belong to none. -/
def pressed (b : Board) : Except Panic ButtonState := b.require.map fun _ => b.buttons.truncate

/-- Whether the button on a line is held. Unknown lines read as released. -/
def button (b : Board) (line : UInt32) : Except Panic Bool := b.pressed.map (·.isPressed line)

/-- The buttons held, in the order in which they are listed to the user. -/
def held (b : Board) : Except Panic (List Button) := b.pressed.map (·.held)

/-- The number of the core that runs the frames, as the platform tells it; zero without one. -/
def coreNumber (b : Board) : CoreId :=
  match b.platform, b.posing with
  | some .bench, some core => core
  | _, _ => .frames

/-- The numbers of the cores that threads of the host run on, when they ask one after the other. The
simulator hands them out; before it has been built every thread is told zero. -/
def threadNumbers (b : Board) (threads : List Nat) : List CoreId × Board :=
  match b.simulator with
  | none => (threads.map fun _ => .frames, b)
  | some _ =>
    let (cores, numbers) := b.cores.numbers threads
    (cores, { b with cores := numbers })

/-- Press and release buttons. The register is the simulator's. -/
def setButtons (f : ButtonState → ButtonState) (b : Board) : Board :=
  { b with buttons := if b.simulator.isSome then f b.buttons else b.buttons }

/-- The period of the ticker that a wait depends on, if there is one. -/
def ticker (b : Board) : Option Duration := b.simulator.bind (·.refresh.ticker)

/-- A wait for the next refresh comes to an end. -/
def waitEnds (b : Board) : Bool :=
  match b.ticker with
  | none => true
  -- If no time passes between two ticks, there is always one more to take out.
  | some period => period.nanos ≠ 0 && b.ticks ≠ some 0

/-- The board after a wait for the next refresh. -/
def waited (b : Board) : Board :=
  { b with
    refreshes := if b.simulator.isSome then b.refreshes + 1 else b.refreshes
    ticks := if b.ticker.isSome then b.ticks.map (· - 1) else b.ticks
    clock := b.clock.wait }

/-- Wait for the next refresh of the display. The simulator counts it. -/
def waitRefresh : Step Board Unit := do
  let b ← get
  let _ ← Step.ofExcept b.require
  if b.waitEnds then set b.waited else throw .endless

/-- Hand a finished frame to the display. The simulator counts it and keeps a copy. The count wraps,
but a frame whose number is no word stops the caller. -/
def present (f : Frame) : Step Board Unit := do
  let b ← get
  let _ ← Step.ofExcept b.require
  if b.simulator.isSome then
    set { b with presented := b.presented + 1 }
    let number ← Step.ofExcept (Word64.add b.presented 1)
    set { b with presented := b.presented + 1, display := .capture f number }

/-- The first platform stays installed. -/
theorem platform_install (b : Board) (p q : Platform) (h : b.platform = some p) :
    (b.install q).2.platform = some p := by
  simp [install, h]

/-- A wait needs a platform, and a refresh that comes. -/
theorem start_waitRefresh (b : Board) :
    waitRefresh.start b =
      match b.platform with
      | some _ => if b.waitEnds then (.ok (), b.waited) else (.error .endless, b)
      | none => (.error (.panic .noPlatform), b) := by
  obtain ⟨platform, _, _, _, _, _, _, _, _, _⟩ := b
  cases platform with
  | none => rfl
  | some p =>
    rw [waitRefresh, Step.start_bind, Step.start_get]
    simp only [require, Step.start_bind, Step.start_ofExcept_ok]
    split <;> rfl

/-- A presentation needs a platform. It replaces the simulator's copy, unless the frame is one more
than can be counted. -/
theorem start_present (f : Frame) (b : Board) :
    (present f).start b =
      match b.platform with
      | some _ =>
        if b.simulator.isSome then
          if b.presented.toNat + 1 < UInt64.size then
            (.ok (), { b with
              presented := b.presented + 1
              display := .capture f (b.presented + 1) })
          else (.error (.panic (.overflow .add)), { b with presented := b.presented + 1 })
        else (.ok (), b)
      | none => (.error (.panic .noPlatform), b) := by
  obtain ⟨platform, simulator, _, _, presented, _, _, _, _, _⟩ := b
  cases platform with
  | none => rfl
  | some p =>
    cases simulator with
    | none => rfl
    | some config =>
      simp only [present, Step.start_bind, Step.start_get, require, Step.start_ofExcept_ok,
        Option.isSome_some, if_true, Step.start_set, Word64.add, UInt64.toNat_one]
      by_cases hroom : presented.toNat + 1 < UInt64.size
      · simp only [if_pos hroom, Step.start_ofExcept_ok]
      · simp only [if_neg hroom, Step.start_ofExcept_error]

end Board

end Handheld
