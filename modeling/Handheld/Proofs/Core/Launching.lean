import Handheld.Core.Second

/-!
# Starting the second core

A platform can be installed, the right to start core 1 asked for and core 1 started, by any of the
ways there are and in any order, also before there is a platform. A call that stops is caught, and
the next one finds what it left. Three things are settled by the first call that reaches them and by
no later one: the platform, the right, and what runs on core 1.

* `start_launchWithRight`, `start_launch`: how a launch ends and what it leaves.
* `platform_next`, `taken_next`, `entry_next`: what one call settles of each of the three.
* `settled_after`, `taken_after`, `countP_obtained_history`: what a sequence of calls settles.
* `right_granted_once_and_entry_started_once`: all of it for every sequence from the start.
-/

namespace Handheld

/-- The calls around core 1. -/
inductive Core1Call where
  /-- Install a test bench. -/
  | installBench
  /-- Build the simulator, if it is not there yet, and install it. -/
  | installSimulator (config : SimulatorConfig)
  /-- Ask for the right. -/
  | take
  /-- Ask the console for the right. -/
  | takeFromConsole
  /-- Start core 1 with a right in hand, and give the right up. Without one there is no such
  call. -/
  | launchWithRight (entry : Entry)
  /-- Ask for the right and start core 1. -/
  | launch (entry : Entry)
  /-- Have the simulator start core 1, without a right. Before it is built there is no such call. -/
  | launchOnSimulator (entry : Entry)
  /-- Core 1 takes a turn meanwhile. -/
  | turn
deriving DecidableEq, Repr

/-- The device with the rights in the caller's hand. -/
structure Boot where
  /-- The registers. -/
  board : Board
  /-- The second core. -/
  core1 : SecondCore
  /-- Rights obtained and not given up yet. -/
  inHand : Nat

namespace Boot

/-- A device on which nothing has been set up. -/
def bare (clock : Clock) : Boot := ⟨.bare clock, .initial, 0⟩

/-- Work with the second core. -/
def second {α : Type} (step : Step SecondCore α) : Step Boot α :=
  step.on (·.core1) fun s core1 => { s with core1 }

/-- Ask for the right, and keep it in hand. -/
def take : Step Boot Bool := do
  let right ← second SecondCore.takeRight
  modify fun s => { s with inHand := if right then s.inHand + 1 else s.inHand }
  return right

/-- Do one call: whether it obtained the right. -/
def perform : Core1Call → Step Boot Bool
  | .installBench => do
    modify fun s => { s with board := (s.board.install .bench).2 }
    return false
  | .installSimulator config => do
    let _ ← (Board.installSimulator config).on (·.board) fun (s : Boot) board => { s with board }
    return false
  | .take => take
  | .takeFromConsole => take
  | .launchWithRight entry => do
    let s ← get
    if s.inHand = 0 then return false
    else
      -- The right is given up first, so it is lost if there is no platform.
      set { s with inHand := s.inHand - 1 }
      second (SecondCore.launchWithRight s.board entry)
      return false
  | .launch entry => do
    let s ← get
    second (SecondCore.launch s.board entry)
    return true
  | .launchOnSimulator entry => do
    modify fun s => { s with
      core1 := if s.board.simulator.isSome then s.core1.start entry else s.core1 }
    return false
  | .turn => do
    modify fun s => { s with core1 := s.core1.turn }
    return false

/-- The state after one call, whether it stops or not. -/
def next (s : Boot) (call : Core1Call) : Boot := ((perform call).start s).2

/-- The state after a sequence of calls. -/
def after (s : Boot) (calls : List Core1Call) : Boot := calls.foldl next s

/-- A call in a sequence, with the state that it found. -/
structure Event where
  /-- The state. -/
  found : Boot
  /-- The call. -/
  call : Core1Call

/-- The calls of a sequence, each with the state that it found. -/
def history : Boot → List Core1Call → List Event
  | _, [] => []
  | s, call :: rest => ⟨s, call⟩ :: history (s.next call) rest

namespace Event

/-- The call obtained the right. -/
def obtained (e : Event) : Bool :=
  match ((perform e.call).start e.found).1 with
  | .ok right => right
  | .error _ => false

/-- The call got as far as asking for the right. A launch does so if it finds a platform. -/
def asked (e : Event) : Bool :=
  match e.call with
  | .take | .takeFromConsole => true
  | .launch _ => e.found.board.platform.isSome
  | _ => false

/-- The platform that the call installs, unless there is one. A rate whose period does not fit stops
the simulator from being built. -/
def platform? (e : Event) : Option Platform :=
  match e.call with
  | .installBench => some .bench
  | .installSimulator config =>
    match e.found.board.simulator, config.refresh.period with
    | none, .error _ => none
    | _, _ => some .simulator
  | _ => none

/-- The entry that the call hands to a platform to start. -/
def launched? (e : Event) : Option Entry :=
  match e.call with
  | .launchWithRight entry =>
    if 0 < e.found.inHand ∧ e.found.board.platform.isSome then some entry else none
  | .launch entry => if e.obtained then some entry else none
  | .launchOnSimulator entry => some entry
  | _ => none

/-- The entry with which the call reaches the simulator. -/
def entry? (e : Event) : Option Entry :=
  if e.found.board.simulator.isSome then e.launched? else none

end Event

/-! ## One call -/

/-- The second core when the installed platform is told to start it. -/
def started (s : Boot) (entry : Entry) (core1 : SecondCore) : SecondCore :=
  if s.board.simulator.isSome then core1.start entry else core1

/-- An installation of the simulator leaves the second core alone. -/
theorem start_installSimulator (s : Boot) (config : SimulatorConfig) :
    (perform (.installSimulator config)).start s =
      (((Board.installSimulator config).start s.board).1.map fun _ => false,
        { s with board := ((Board.installSimulator config).start s.board).2 }) := by
  rw [perform, Step.start_bind, Step.start_on]
  cases ((Board.installSimulator config).start s.board).1 <;> rfl

/-- The simulator starts core 1 without asking for the right. -/
theorem start_launchOnSimulator (s : Boot) (entry : Entry) :
    (perform (.launchOnSimulator entry)).start s =
      (.ok false, { s with core1 := s.started entry s.core1 }) := rfl

/-- A launch with a right in hand gives it up and starts core 1, and stops if there is no platform.
Without a right there is nothing to give up. -/
theorem start_launchWithRight (s : Boot) (entry : Entry) :
    (perform (.launchWithRight entry)).start s =
      (if 0 < s.inHand ∧ s.board.platform = none then .error (.panic .noPlatform) else .ok false,
        { s with
          core1 := if 0 < s.inHand ∧ s.board.platform.isSome then s.started entry s.core1
            else s.core1
          inHand := s.inHand - 1 }) := by
  obtain ⟨board, core1, rights⟩ := s
  cases rights with
  | zero => rfl
  | succ rest =>
    rw [perform, Step.start_bind, Step.start_get]
    simp only [if_neg (Nat.succ_ne_zero rest)]
    rw [Step.start_bind, Step.start_set, SecondCore.launchWithRight]
    cases board.platform <;> rfl

/-- A launch without a right in hand asks for it if there is a platform, and starts core 1 with it.
Where it stops it changes nothing. -/
theorem start_launch (s : Boot) (entry : Entry) :
    (perform (.launch entry)).start s =
      match s.board.platform, s.core1.taken with
      | none, _ => (.error (.panic .noPlatformForCore1), s)
      | some _, true => (.error (.panic .core1Launched), s)
      | some _, false =>
        (.ok true, { s with core1 := s.started entry { s.core1 with taken := true } }) := by
  rw [perform, Step.start_bind, Step.start_get]
  simp only
  rw [Step.start_bind, second, Step.start_on]
  cases hplatform : s.board.platform with
  | none => rw [SecondCore.launch_without_platform entry s.core1 hplatform]
  | some platform =>
    have hsome : s.board.platform.isSome := by rw [hplatform]; rfl
    cases htaken : s.core1.taken with
    | true => rw [SecondCore.launch_of_taken entry hsome htaken]
    | false =>
      -- The right was there, so the launch goes on with it in hand, and cannot stop any more.
      have hlaunch : (SecondCore.launch s.board entry).start s.core1 =
          (.ok (), s.started entry { s.core1 with taken := true }) := by
        rw [SecondCore.launch, hplatform]
        simp only
        rw [Step.start_bind, SecondCore.takeRight, Step.start_bind, Step.start_get]
        simp only [htaken]
        rw [SecondCore.launchWithRight, hplatform]
        rfl
      rw [hlaunch]
      rfl

/-! ## The platform -/

theorem platform_install_eq (b : Board) (p : Platform) :
    (b.install p).2.platform = b.platform.or (some p) := by
  cases hplatform : b.platform with
  | none => simp [Board.install, hplatform]
  | some first => simpa using Board.platform_install b first p hplatform

/-- A simulator that is not built, because its period does not fit, is not installed. -/
theorem platform_installSimulator (b : Board) (config : SimulatorConfig) :
    ((Board.installSimulator config).start b).2.platform =
      b.platform.or (match b.simulator, config.refresh.period with
        | none, .error _ => none
        | _, _ => some .simulator) := by
  unfold Board.installSimulator
  rw [Step.start_bind, Step.start_get]
  cases hsimulator : b.simulator with
  | some first =>
    simp only [hsimulator]
    rw [Step.start_bind, Step.start_set]
    exact platform_install_eq b .simulator
  | none =>
    simp only [hsimulator]
    cases config.refresh.period with
    | error p =>
      rw [Step.start_bind, Step.start_ofExcept_error]
      exact Option.or_none.symm
    | ok period =>
      rw [Step.start_bind, Step.start_ofExcept_ok]
      simp only
      rw [Step.start_bind, Step.start_set]
      exact platform_install_eq { b with simulator := some config } .simulator

/-! ## What a call leaves -/

/-- The simulator keeps what it started first. -/
theorem entry_started (s : Boot) (entry : Entry) (core1 : SecondCore) :
    (s.started entry core1).entry =
      core1.entry.or (if s.board.simulator.isSome then some entry else none) := by
  unfold started SecondCore.start
  cases hsimulator : s.board.simulator.isSome with
  | false => simp
  | true => cases hentry : core1.entry <;> simp [hentry]

theorem taken_started (s : Boot) (entry : Entry) (core1 : SecondCore) :
    (s.started entry core1).taken = core1.taken := by
  unfold started SecondCore.start
  split
  · split <;> rfl
  · rfl

/-- A call obtains the right exactly if it asks for it and nobody has before. -/
theorem obtained_eq (s : Boot) (call : Core1Call) :
    Event.obtained ⟨s, call⟩ = (Event.asked ⟨s, call⟩ && !s.core1.taken) := by
  cases call with
  | launch entry =>
    unfold Event.obtained Event.asked
    rw [start_launch]
    cases s.board.platform <;> cases s.core1.taken <;> rfl
  | take | takeFromConsole => rfl
  | launchWithRight entry =>
    unfold Event.obtained
    rw [start_launchWithRight]
    simp only
    by_cases hlost : 0 < s.inHand ∧ s.board.platform = none
    · rw [if_pos hlost]
      rfl
    · rw [if_neg hlost]
      rfl
  | installSimulator config =>
    unfold Event.obtained
    rw [start_installSimulator]
    cases ((Board.installSimulator config).start s.board).1 <;> rfl
  | installBench | launchOnSimulator entry | turn => rfl

/-- Only an installation changes the board. -/
theorem board_next (s : Boot) (call : Core1Call) :
    (s.next call).board =
      match call with
      | .installBench => (s.board.install .bench).2
      | .installSimulator config => ((Board.installSimulator config).start s.board).2
      | _ => s.board := by
  unfold next
  cases call with
  | launch entry =>
    rw [start_launch]
    cases s.board.platform <;> cases s.core1.taken <;> rfl
  | launchWithRight entry => rw [start_launchWithRight]
  | installSimulator config => rw [start_installSimulator]
  | launchOnSimulator entry => rw [start_launchOnSimulator]
  | take | takeFromConsole | installBench | turn => rfl

/-- The platform after a call is the one from before, or else the one that the call installs. -/
theorem platform_next (s : Boot) (call : Core1Call) :
    (s.next call).board.platform = s.board.platform.or (Event.platform? ⟨s, call⟩) := by
  rw [board_next]
  cases call with
  | installBench => exact platform_install_eq s.board .bench
  | installSimulator config => exact platform_installSimulator s.board config
  | take | takeFromConsole | launchWithRight _ | launch _ | launchOnSimulator _ | turn =>
    exact Option.or_none.symm

/-- What each call does to the second core. -/
theorem core1_next (s : Boot) (call : Core1Call) :
    (s.next call).core1 =
      match call with
      | .installBench | .installSimulator _ => s.core1
      | .take | .takeFromConsole => { s.core1 with taken := true }
      | .launchWithRight entry =>
        if 0 < s.inHand ∧ s.board.platform.isSome then s.started entry s.core1 else s.core1
      | .launch entry =>
        if Event.obtained ⟨s, .launch entry⟩ then s.started entry { s.core1 with taken := true }
        else s.core1
      | .launchOnSimulator entry => s.started entry s.core1
      | .turn => s.core1.turn := by
  unfold next
  cases call with
  | launch entry =>
    simp only [obtained_eq, Event.asked]
    rw [start_launch]
    cases s.board.platform <;> cases s.core1.taken <;> rfl
  | launchWithRight entry => rw [start_launchWithRight]
  | launchOnSimulator entry => rw [start_launchOnSimulator]
  | installSimulator config => rw [start_installSimulator]
  | take | takeFromConsole | installBench | turn => rfl

/-- The right is gone after a call if it was gone before or the call asks for it. -/
theorem taken_next (s : Boot) (call : Core1Call) :
    (s.next call).core1.taken = (s.core1.taken || Event.asked ⟨s, call⟩) := by
  rw [core1_next]
  cases call with
  | take | takeFromConsole => exact (Bool.or_true _).symm
  | launch entry =>
    simp only [obtained_eq, Event.asked]
    -- Starting core 1 does not hand the right back.
    cases s.board.platform.isSome <;> cases htaken : s.core1.taken <;> simp [htaken, taken_started]
  | launchWithRight entry =>
    refine Eq.trans ?_ (Bool.or_false _).symm
    simp only
    split
    · exact taken_started s entry s.core1
    · rfl
  | launchOnSimulator entry =>
    exact (taken_started s entry s.core1).trans (Bool.or_false _).symm
  | turn => exact (SecondCore.taken_turn s.core1).trans (Bool.or_false _).symm
  | installBench | installSimulator _ => exact (Bool.or_false _).symm

/-- Core 1 runs what it ran before a call, or else the entry with which the call reaches the
simulator. -/
theorem entry_next (s : Boot) (call : Core1Call) :
    (s.next call).core1.entry = s.core1.entry.or (Event.entry? ⟨s, call⟩) := by
  rw [core1_next]
  unfold Event.entry? Event.launched?
  cases call with
  | launchOnSimulator entry => exact entry_started s entry s.core1
  | launch entry =>
    simp only
    split
    · exact entry_started s entry _
    · simp
  | launchWithRight entry =>
    simp only
    split
    · exact entry_started s entry _
    · simp
  | turn => simp
  | take | takeFromConsole | installBench | installSimulator _ => simp

/-! ## Sequences of calls -/

/-- What a call leaves as it finds it, or else settles itself, is settled by the first call of a
sequence that does so, if it is not settled before. -/
theorem settled_after {α : Type} {f : Boot → Option α} {g : Event → Option α}
    (hnext : ∀ s call, f (s.next call) = (f s).or (g ⟨s, call⟩)) (s : Boot)
    (calls : List Core1Call) : f (s.after calls) = (f s).or ((s.history calls).findSome? g) := by
  induction calls generalizing s with
  | nil => exact Option.or_none.symm
  | cons call rest ih =>
    show f ((s.next call).after rest) = _
    -- Whatever the rest settles comes after this call.
    rw [ih, hnext, Option.or_assoc, history, List.findSome?_cons]
    cases g ⟨s, call⟩ <;> rfl

/-- The platform is the first one that a call of the sequence installs. -/
theorem platform_after (s : Boot) (calls : List Core1Call) :
    (s.after calls).board.platform =
      s.board.platform.or ((s.history calls).findSome? Event.platform?) :=
  settled_after (f := fun s => s.board.platform) platform_next s calls

/-- Core 1 runs the first entry with which a call of the sequence reaches the simulator. -/
theorem entry_after (s : Boot) (calls : List Core1Call) :
    (s.after calls).core1.entry = s.core1.entry.or ((s.history calls).findSome? Event.entry?) :=
  settled_after (f := fun s => s.core1.entry) entry_next s calls

/-- The right is gone once somebody has asked for it. -/
theorem taken_after (s : Boot) (calls : List Core1Call) :
    (s.after calls).core1.taken = (s.core1.taken || (s.history calls).any Event.asked) := by
  induction calls generalizing s with
  | nil => exact (Bool.or_false _).symm
  | cons call rest ih =>
    show ((s.next call).after rest).core1.taken = _
    rw [ih, taken_next, Bool.or_assoc, history, List.any_cons]

/-- A sequence of calls obtains the right once if it is there and somebody asks for it, and else not
at all. -/
theorem countP_obtained_history (s : Boot) (calls : List Core1Call) :
    (s.history calls).countP Event.obtained =
      (!s.core1.taken && (s.history calls).any Event.asked).toNat := by
  induction calls generalizing s with
  | nil => rw [history, List.any_nil, Bool.and_false]; rfl
  | cons call rest ih =>
    rw [history, List.countP_cons, ih, List.any_cons, taken_next, obtained_eq]
    -- If this call asks, it obtains the right if it is there, and leaves none for the rest.
    cases s.core1.taken <;> cases Event.asked ⟨s, call⟩ <;> simp

/-- After any calls from the start, in any order, the right has been obtained at most once. The next
call obtains it exactly if it asks for it and is the first to ask. A launch stops without a platform,
and with the right gone, and changes nothing then. The platform is the first one that was installed,
and core 1 runs the first entry that reached the simulator; no later call changes either. -/
theorem right_granted_once_and_entry_started_once (clock : Clock) (calls : List Core1Call) :
    let s := (bare clock).after calls
    let past := (bare clock).history calls
    past.countP Event.obtained ≤ 1 ∧
      (∀ call, Event.obtained ⟨s, call⟩ = true ↔
        Event.asked ⟨s, call⟩ = true ∧ ∀ e ∈ past, e.asked = false) ∧
      s.core1.taken = past.any Event.asked ∧
      (∀ entry, s.board.platform = none →
        (perform (.launch entry)).start s = (.error (.panic .noPlatformForCore1), s)) ∧
      (∀ entry, s.board.platform.isSome → s.core1.taken = true →
        (perform (.launch entry)).start s = (.error (.panic .core1Launched), s)) ∧
      s.board.platform = past.findSome? Event.platform? ∧
      (∀ later platform, s.board.platform = some platform →
        (s.after later).board.platform = some platform) ∧
      s.core1.entry = past.findSome? Event.entry? ∧
      ∀ later entry, s.core1.entry = some entry → (s.after later).core1.entry = some entry := by
  intro s past
  have htaken : s.core1.taken = past.any Event.asked := taken_after (bare clock) calls
  refine ⟨?_, fun call => ?_, htaken, ?_, ?_, platform_after (bare clock) calls, ?_,
    entry_after (bare clock) calls, ?_⟩
  · show ((bare clock).history calls).countP Event.obtained ≤ 1
    rw [countP_obtained_history]
    exact Bool.toNat_le _
  · rw [obtained_eq, htaken, Bool.and_eq_true, Bool.not_eq_true', List.any_eq_false]
    simp
  · intro entry hplatform
    rw [start_launch, hplatform]
  · intro entry hsome hgone
    obtain ⟨platform, hplatform⟩ := Option.isSome_iff_exists.1 hsome
    rw [start_launch, hplatform, hgone]
  · intro later platform hplatform
    rw [platform_after, hplatform]
    rfl
  · intro later entry hentry
    rw [entry_after, hentry]
    rfl

/-- The first launch finds no platform and leaves the right for the second, and neither the third
nor the simulator's own starts anything more. -/
example :
    let calls : List Core1Call := [.launch .park, .installBench, .installSimulator .immediate,
      .launch .render, .launch .park, .launchOnSimulator .park]
    ((bare default).history calls).map Event.obtained = [false, false, false, true, false, false] ∧
      ((bare default).after calls).board.platform = some .bench ∧
      ((bare default).after calls).core1.entry = some .render := by
  decide

end Boot

end Handheld
