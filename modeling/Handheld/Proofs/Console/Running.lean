import Handheld.Console

/-!
# The console on a running board

With a platform installed and the simulator built, a wait for a refresh that comes does not stop: it
is counted and moves the clock. Nor does a flip, as long as the frames can be counted: the display
keeps the frame and counts it.

* `start_waitRefresh_of_running`, `start_flip_of_running`: what a wait and a flip do.
* `start_flip_of_full`: how a flip stops.
-/

namespace Handheld

namespace Board

/-- The refresh comes whenever it is waited for: waits end at once, or time passes between two ticks,
and then the host keeps up with its ticker and the ticker never ceases to fire. -/
def RefreshComes (b : Board) : Prop :=
  ∀ period, b.ticker = some period → period.nanos ≠ 0 ∧ b.ticks = none

theorem refreshComes_iff_of_ticker {b : Board} {period : Duration} (h : b.ticker = some period) :
    b.RefreshComes ↔ period.nanos ≠ 0 ∧ b.ticks = none := by
  unfold RefreshComes
  rw [h]
  exact ⟨fun hcomes => hcomes period rfl, fun hcomes _ hperiod => Option.some.inj hperiod ▸ hcomes⟩

instance (b : Board) : Decidable b.RefreshComes :=
  match h : b.ticker with
  | none => isTrue fun _ hperiod => nomatch h.symm.trans hperiod
  | some _ => decidable_of_iff' _ (refreshComes_iff_of_ticker h)

/-- A platform is installed and the simulator stands behind it. -/
structure Ready (b : Board) : Prop where
  /-- There is a platform to ask. -/
  platform : b.platform.isSome
  /-- The simulator keeps frames and counts waits. -/
  simulator : b.simulator.isSome

/-- The board is ready and the refresh comes. -/
structure Running (b : Board) : Prop extends Ready b where
  /-- Every wait ends. -/
  refresh : b.RefreshComes
  /-- The copy that the display keeps is of the last frame that was counted. -/
  frame_display : b.display.frame = b.presented

/-- So many more frames can be counted. -/
def RoomFor (b : Board) (frames : Nat) : Prop := b.presented.toNat + frames < UInt64.size

instance (b : Board) (frames : Nat) : Decidable (b.RoomFor frames) :=
  inferInstanceAs (Decidable (_ < _))

theorem RoomFor.mono {b : Board} {m n : Nat} (h : b.RoomFor n) (hle : m ≤ n) : b.RoomFor m :=
  Nat.lt_of_le_of_lt (Nat.add_le_add_left hle _) h

/-- A board on which the simulator has been installed with waits that end at once. -/
def simulated (clock : Clock) : Board :=
  { bare clock with platform := some .simulator, simulator := some .immediate }

theorem running_simulated (clock : Clock) : (simulated clock).Running :=
  ⟨⟨rfl, rfl⟩, nofun, rfl⟩

variable {b : Board}

/-- A wait for a refresh that comes ends. -/
theorem RefreshComes.waitEnds (h : b.RefreshComes) : b.waitEnds = true := by
  unfold Board.waitEnds
  split
  · rfl
  · next period hticker =>
    obtain ⟨hperiod, hticks⟩ := h period hticker
    simp [hperiod, hticks]

/-- After a wait the next refresh comes as well. -/
theorem running_waited (h : b.Running) : b.waited.Running where
  platform := h.platform
  simulator := h.simulator
  refresh period hticker := by
    obtain ⟨hperiod, hticks⟩ := h.refresh period hticker
    refine ⟨hperiod, ?_⟩
    simp [waited, hticks]
  frame_display := h.frame_display

@[simp]
theorem refreshes_waited (h : b.Running) : b.waited.refreshes = b.refreshes + 1 :=
  if_pos h.simulator

end Board

namespace Console

/-- A new console with the simulator. -/
def simulated (clock : Clock) (w h : Int) : Console :=
  ⟨⟨.simulated clock, .initial, #[]⟩, .new w h⟩

/-- The console after a wait for the refresh. -/
def waited (c : Console) : Console :=
  { c with board := c.board.waited, core1 := c.core1.runWaiting }

/-- The console after a flip. -/
def shown (c : Console) : Console :=
  { c with
    board := { c.board with
      presented := c.board.presented + 1
      display := .capture c.screen.target (c.board.presented + 1) }
    screen := c.screen.flipped }

variable {c : Console}

theorem start_waitRefresh_of_running (h : c.board.Running) :
    waitRefresh.start c = (.ok (), c.waited) := by
  obtain ⟨p, hp⟩ := Option.isSome_iff_exists.1 h.platform
  rw [start_waitRefresh, hp]
  exact if_pos h.refresh.waitEnds

theorem start_flip_of_running (h : c.board.Running) (hroom : c.board.RoomFor 1) :
    flip.start c = (.ok (), c.shown) := by
  obtain ⟨p, hp⟩ := Option.isSome_iff_exists.1 h.platform
  rw [start_flip, hp]
  exact (if_pos h.simulator).trans (if_pos hroom)

/-- A flip whose frame cannot be counted stops. The frames keep their roles and the display its copy,
and the count has wrapped. -/
theorem start_flip_of_full (h : c.board.Ready) (hfull : ¬ c.board.RoomFor 1) :
    flip.start c = (.error (.panic (.overflow .add)), { c with
      board := { c.board with presented := c.board.presented + 1 } }) := by
  obtain ⟨p, hp⟩ := Option.isSome_iff_exists.1 h.platform
  rw [start_flip, hp]
  exact (if_pos h.simulator).trans (if_neg hfull)

/-- A flip that does not stop has counted its frame. -/
theorem roomFor_of_start_flip {after : Console} (h : c.board.Running)
    (hflip : flip.start c = (.ok (), after)) : c.board.RoomFor 1 := by
  by_cases hroom : c.board.RoomFor 1
  · exact hroom
  · rw [start_flip_of_full h.toReady hroom] at hflip
    cases hflip

theorem running_shown (h : c.board.Running) : c.shown.board.Running :=
  ⟨⟨h.platform, h.simulator⟩, h.refresh, rfl⟩

theorem toNat_presented_shown (h : c.board.RoomFor 1) :
    c.shown.board.presented.toNat = c.board.presented.toNat + 1 := by
  rw [show c.shown.board.presented = c.board.presented + 1 from rfl, UInt64.toNat_add]
  exact Nat.mod_eq_of_lt h

end Console

end Handheld
