import Handheld.Proofs.Console.Running

/-!
# The button register

The host presses and releases single buttons or stores a whole state, known bits or not. Each of
these settles some bits of the register and leaves the others, so a bit is as the last action that
concerned it left it; a reader sees the bits of the buttons alone.

* `isPressed_eq_bit`: reading a line is reading its bit, and there is none past the register.
* `bit_apply`: one action on one bit.
* `bit_applyAll_iff`: the bit of a button after any actions.
* `isPressed_truncate_iff`: what a reader sees of the register.
* `Board.buttons_follow_last_action`: what the device reads after any actions.
-/

namespace Handheld

/-! ## Bits -/

namespace Button

theorem line_lt (button : Button) : button.line.toNat < 32 := by
  cases button <;> decide

/-- The line of a button leads back to it. -/
theorem find?_line (button : Button) : all.find? (·.line = button.line) = some button := by
  cases button <;> rfl

/-- No two buttons share a line. -/
theorem toNat_line_inj {button other : Button} :
    button.line.toNat = other.line.toNat ↔ button = other := by
  rw [UInt32.toNat_inj]
  constructor
  · intro h
    rw [← Option.some_inj, ← find?_line button, ← find?_line other, h]
  · intro h
    rw [h]

/-- The mask of a button has the bit of its line and no other. -/
theorem getLsbD_mask (button : Button) (n : Nat) :
    button.mask.toBitVec.getLsbD n = decide (button.line.toNat = n) := by
  have hmask : button.mask.toBitVec = BitVec.twoPow 32 button.line.toNat := by
    cases button <;> rfl
  rw [hmask, BitVec.getLsbD_twoPow, decide_eq_true button.line_lt, Bool.true_and]

end Button

namespace ButtonState

/-- A bit of the register, unset past its end. -/
def bit (s : ButtonState) (n : Nat) : Bool := s.bits.toBitVec.getLsbD n

/-- A line is pressed if its bit is set. -/
theorem isPressed_eq_bit (s : ButtonState) (line : UInt32) :
    s.isPressed line = s.bit line.toNat := by
  rw [isPressed, bit]
  -- The shift takes the line modulo 32, so a line past the register is decided before it.
  by_cases hline : line < 32
  · have hlt : line.toNat < 32 := UInt32.lt_iff_toNat_lt.1 hline
    rw [decide_eq_true hline, Bool.true_and, BitVec.getLsbD, UInt32.toNat_toBitVec,
      Nat.testBit_eq_decide_div_mod_eq]
    congr 1
    rw [← UInt32.toNat_inj, UInt32.toNat_and, UInt32.toNat_shiftRight, Nat.mod_eq_of_lt hlt,
      Nat.shiftRight_eq_div_pow]
    show (s.bits.toNat / 2 ^ line.toNat &&& 1 = 1) = _
    rw [Nat.and_one_is_mod]
  · have hge : 32 ≤ line.toNat := Nat.not_lt.1 fun h => hline (UInt32.lt_iff_toNat_lt.2 h)
    rw [decide_eq_false hline, Bool.false_and, BitVec.getLsbD_of_ge _ _ hge]

theorem bit_press (s : ButtonState) (button : Button) (n : Nat) :
    (s.press button).bit n = (s.bit n || decide (button.line.toNat = n)) := by
  rw [bit, bits_press, UInt32.toBitVec_or, BitVec.getLsbD_or, Button.getLsbD_mask, bit]

theorem bit_release (s : ButtonState) (button : Button) (n : Nat) :
    (s.release button).bit n = (s.bit n && !decide (button.line.toNat = n)) := by
  rw [bit, bits_release, UInt32.toBitVec_and, BitVec.getLsbD_and, UInt32.toBitVec_not,
    BitVec.getLsbD_not, Button.getLsbD_mask, bit]
  -- The complement has no bits past the register, and neither has the state.
  by_cases hn : n < 32
  · rw [decide_eq_true hn, Bool.true_and]
  · rw [BitVec.getLsbD_of_ge _ _ (Nat.not_lt.1 hn), Bool.false_and, Bool.false_and]

/-- The bits of flags that are put together one by one. -/
theorem getLsbD_foldl_mask (flags : List (String × Button)) (m : UInt32) (n : Nat) :
    (flags.foldl (fun m f => m ||| f.2.mask) m).toBitVec.getLsbD n =
      (m.toBitVec.getLsbD n || flags.any fun f => f.2.line.toNat = n) := by
  induction flags generalizing m with
  | nil => rw [List.foldl_nil, List.any_nil, Bool.or_false]
  | cons f rest ih =>
    rw [List.foldl_cons, ih, UInt32.toBitVec_or, BitVec.getLsbD_or, Button.getLsbD_mask,
      List.any_cons, Bool.or_assoc]

/-- Every button has a flag. -/
theorem exists_mem_flags (button : Button) : ∃ f ∈ flags, f.2 = button := by
  cases button <;> decide

/-- The known bits are those on the lines of the buttons. -/
theorem getLsbD_known_iff (n : Nat) :
    known.toBitVec.getLsbD n = true ↔ ∃ button : Button, button.line.toNat = n := by
  rw [known, getLsbD_foldl_mask]
  simp only [UInt32.toBitVec_ofNat, BitVec.getLsbD_zero, Bool.false_or, List.any_eq_true,
    decide_eq_true_eq]
  constructor
  · rintro ⟨f, -, hline⟩
    exact ⟨f.2, hline⟩
  · rintro ⟨button, hline⟩
    obtain ⟨f, hf, rfl⟩ := exists_mem_flags button
    exact ⟨f, hf, hline⟩

/-- A reader sees the bits of the buttons and no other. -/
theorem isPressed_truncate_iff {s : ButtonState} {line : UInt32} :
    s.truncate.isPressed line = true ↔
      ∃ button : Button, button.line = line ∧ s.bit line.toNat = true := by
  rw [isPressed_eq_bit, bit, truncate, UInt32.toBitVec_and, BitVec.getLsbD_and, Bool.and_eq_true,
    getLsbD_known_iff]
  constructor
  · rintro ⟨hbit, button, hline⟩
    exact ⟨button, UInt32.toNat_inj.1 hline, hbit⟩
  · rintro ⟨button, rfl, hbit⟩
    exact ⟨hbit, button, rfl⟩

end ButtonState

/-! ## Actions of the host -/

/-- What the host does to the buttons. -/
inductive HostAction where
  /-- Hold a button down. -/
  | press (button : Button)
  /-- Let a button go. -/
  | release (button : Button)
  /-- Replace the whole register, unknown bits included. -/
  | store (state : ButtonState)
deriving DecidableEq, Repr

namespace HostAction

/-- The register after an action. -/
def apply : HostAction → ButtonState → ButtonState
  | press button, s => s.press button
  | release button, s => s.release button
  | store state, _ => state

/-- Whether an action that concerns a button leaves it held. -/
def leaves (button : Button) : HostAction → Option Bool
  | press other => if other = button then some true else none
  | release other => if other = button then some false else none
  | store state => some (state.bit button.line.toNat)

/-- An action sets or clears the bit of a button that it concerns, and keeps that of any other. -/
theorem bit_apply (action : HostAction) (s : ButtonState) (button : Button) :
    (action.apply s).bit button.line.toNat =
      (action.leaves button).getD (s.bit button.line.toNat) := by
  cases action with
  | press other =>
    rw [apply, ButtonState.bit_press, leaves]
    by_cases h : other = button
    · rw [if_pos h, h, decide_eq_true rfl, Bool.or_true, Option.getD_some]
    · rw [if_neg h, decide_eq_false (mt Button.toNat_line_inj.1 h), Bool.or_false, Option.getD_none]
  | release other =>
    rw [apply, ButtonState.bit_release, leaves]
    by_cases h : other = button
    · rw [if_pos h, h, decide_eq_true rfl, Bool.not_true, Bool.and_false, Option.getD_some]
    · rw [if_neg h, decide_eq_false (mt Button.toNat_line_inj.1 h), Bool.not_false, Bool.and_true,
        Option.getD_none]
  | store state => rfl

/-- The last of the actions that concern the button leaves it held. -/
def LastLeavesHeld (button : Button) (actions : List HostAction) : Prop :=
  ∃ earlier action later, actions = earlier ++ action :: later ∧
    action.leaves button = some true ∧ ∀ other ∈ later, other.leaves button = none

theorem not_lastLeavesHeld_nil (button : Button) : ¬ LastLeavesHeld button [] := by
  rintro ⟨earlier, action, later, hsplit, -⟩
  exact absurd hsplit.symm (List.append_ne_nil_of_right_ne_nil _ (List.cons_ne_nil _ _))

/-- The first action is the last one that concerns the button, or there is a later one. -/
theorem lastLeavesHeld_cons_iff {button : Button} {action : HostAction} {rest : List HostAction} :
    LastLeavesHeld button (action :: rest) ↔ LastLeavesHeld button rest ∨
      action.leaves button = some true ∧ ∀ other ∈ rest, other.leaves button = none := by
  constructor
  · rintro ⟨earlier, last, later, hsplit, hheld, hlater⟩
    cases earlier with
    | nil =>
      obtain ⟨rfl, rfl⟩ := List.cons.inj hsplit
      exact .inr ⟨hheld, hlater⟩
    | cons first earlier =>
      obtain ⟨rfl, rfl⟩ := List.cons.inj hsplit
      exact .inl ⟨earlier, last, later, rfl, hheld, hlater⟩
  · rintro (⟨earlier, last, later, rfl, hheld, hlater⟩ | ⟨hheld, hrest⟩)
    · exact ⟨action :: earlier, last, later, rfl, hheld, hlater⟩
    · exact ⟨[], action, rest, rfl, hheld, hrest⟩

/-- The register after actions in order. -/
def applyAll (actions : List HostAction) (s : ButtonState) : ButtonState :=
  actions.foldl (fun s action => action.apply s) s

theorem applyAll_cons (action : HostAction) (rest : List HostAction) (s : ButtonState) :
    applyAll (action :: rest) s = applyAll rest (action.apply s) := rfl

theorem applyAll_append (earlier later : List HostAction) (s : ButtonState) :
    applyAll (earlier ++ later) s = applyAll later (applyAll earlier s) := List.foldl_append

/-- After any actions the bit of a button is set if the last action that concerned it left it held,
or if none did and it was set before. -/
theorem bit_applyAll_iff (button : Button) (actions : List HostAction) (s : ButtonState) :
    (applyAll actions s).bit button.line.toNat = true ↔ LastLeavesHeld button actions ∨
      s.bit button.line.toNat = true ∧ ∀ action ∈ actions, action.leaves button = none := by
  induction actions generalizing s with
  | nil =>
    simp only [not_lastLeavesHeld_nil, List.not_mem_nil, false_or]
    exact ⟨fun h => ⟨h, fun _ hmem => hmem.elim⟩, fun h => h.1⟩
  | cons action rest ih =>
    rw [applyAll_cons, ih, lastLeavesHeld_cons_iff, bit_apply, List.forall_mem_cons]
    -- The first action decides unless it leaves the button alone.
    cases hleaves : action.leaves button with
    | none => simp
    | some held => simp

end HostAction

/-! ## The device -/

namespace Board

/-- The board after actions of the host. -/
def afterActions (b : Board) (actions : List HostAction) : Board :=
  actions.foldl (fun b action => b.setButtons action.apply) b

/-- Actions change the register and nothing else of a board with a simulator. -/
theorem afterActions_eq {b : Board} (h : b.simulator.isSome) (actions : List HostAction) :
    b.afterActions actions = { b with buttons := HostAction.applyAll actions b.buttons } := by
  induction actions generalizing b with
  | nil => rfl
  | cons action rest ih =>
    have hset : b.setButtons action.apply = { b with buttons := action.apply b.buttons } := by
      rw [setButtons, if_pos h]
    rw [afterActions, List.foldl_cons, ← afterActions, hset]
    exact ih (b := { b with buttons := action.apply b.buttons }) h

/-- With a platform a read never stops, and it sees the bits of the buttons. -/
theorem button_of_ready {b : Board} (h : b.Ready) (line : UInt32) :
    b.button line = .ok (b.buttons.truncate.isPressed line) := by
  obtain ⟨p, hp⟩ := Option.isSome_iff_exists.1 h.platform
  rw [button, pressed, require, hp]
  rfl

/-- What is read after actions, from any register before them. -/
theorem button_afterActions {b : Board} (h : b.Ready) (actions : List HostAction)
    (line : UInt32) :
    (b.afterActions actions).button line =
      .ok ((HostAction.applyAll actions b.buttons).truncate.isPressed line) := by
  have hready : (b.afterActions actions).Ready := by
    rw [afterActions_eq h.simulator]
    exact ⟨h.platform, h.simulator⟩
  rw [button_of_ready hready, afterActions_eq h.simulator]

/-- A press or a release of a button on another line is not noticed, then or later. -/
theorem button_afterActions_insert {b : Board} (h : b.Ready) {other : Button} {line : UInt32}
    (hother : other.line ≠ line) {action : HostAction}
    (haction : action = .press other ∨ action = .release other)
    (earlier later : List HostAction) :
    (b.afterActions (earlier ++ action :: later)).button line =
      (b.afterActions (earlier ++ later)).button line := by
  rw [button_afterActions h, button_afterActions h, Except.ok.injEq, Bool.eq_iff_iff,
    ButtonState.isPressed_truncate_iff, ButtonState.isPressed_truncate_iff]
  refine exists_congr fun button => and_congr_right ?_
  rintro rfl
  have hleaves : action.leaves button = none := by
    rcases haction with rfl | rfl
    · exact if_neg fun heq => hother (congrArg Button.line heq)
    · exact if_neg fun heq => hother (congrArg Button.line heq)
  -- The later actions start from registers with the same bit.
  rw [HostAction.applyAll_append, HostAction.applyAll_append, HostAction.applyAll_cons,
    HostAction.bit_applyAll_iff button later, HostAction.bit_applyAll_iff button later,
    HostAction.bit_apply, hleaves, Option.getD_none]

/-- On a device whose register starts empty, for any actions of the host and any line. A read never
stops, and reads a line as held exactly if it is the line of a button and the last action that
concerned that button left it held. A line without a button always reads as released, and no press
or release of a button on another line is noticed, at whatever place among the actions it comes. -/
theorem buttons_follow_last_action {b : Board} (hb : b.Ready) (hempty : b.buttons = .empty)
    (actions : List HostAction) (line : UInt32) :
    (∃ held : Bool, (b.afterActions actions).button line = .ok held ∧
        (held = true ↔ ∃ button : Button, button.line = line ∧
          HostAction.LastLeavesHeld button actions)) ∧
      ((∀ button : Button, button.line ≠ line) →
        (b.afterActions actions).button line = .ok false) ∧
      ∀ other : Button, other.line ≠ line → ∀ action : HostAction,
        action = .press other ∨ action = .release other → ∀ earlier later,
          actions = earlier ++ later →
            (b.afterActions (earlier ++ action :: later)).button line =
              (b.afterActions actions).button line := by
  have hread := button_afterActions hb actions line
  have hheld : (HostAction.applyAll actions b.buttons).truncate.isPressed line = true ↔
      ∃ button : Button, button.line = line ∧ HostAction.LastLeavesHeld button actions := by
    rw [ButtonState.isPressed_truncate_iff]
    refine exists_congr fun button => and_congr_right ?_
    rintro rfl
    -- No bit is set before the first action.
    have hclear : b.buttons.bit button.line.toNat = false := by
      rw [hempty]
      exact BitVec.getLsbD_zero
    rw [HostAction.bit_applyAll_iff, hclear]
    simp only [Bool.false_eq_true, false_and, or_false]
  refine ⟨⟨_, hread, hheld⟩, ?_, ?_⟩
  · intro hnone
    rw [hread, Except.ok.injEq, ← Bool.not_eq_true, hheld]
    rintro ⟨button, hline, -⟩
    exact hnone button hline
  · rintro other hother action haction earlier later rfl
    exact button_afterActions_insert hb hother haction earlier later

/-- A whole state with bits that belong to no button, between presses and releases. -/
theorem buttons_after_stored_state :
    let b : Board := .simulated default
    let actions : List HostAction :=
      [.press .b, .store ⟨0x80040001⟩, .press .up, .release .up, .press .y, .release .x]
    b.Ready ∧ b.buttons = .empty ∧ (b.afterActions actions).button Button.a.line = .ok true ∧
      (b.afterActions actions).button Button.b.line = .ok false ∧
      (b.afterActions actions).button 31 = .ok false := by
  intro b actions
  have hb : b.Ready := (running_simulated default).toReady
  obtain ⟨⟨held, hread, hheld⟩, -, -⟩ :=
    buttons_follow_last_action hb rfl actions Button.a.line
  obtain ⟨-, hunknown, -⟩ := buttons_follow_last_action hb rfl actions 31
  have hstored : HostAction.LastLeavesHeld .a actions :=
    ⟨[.press .b], .store ⟨0x80040001⟩, [.press .up, .release .up, .press .y, .release .x], rfl,
      by decide, by decide⟩
  refine ⟨hb, rfl, ?_, ?_, hunknown ?_⟩
  · rw [hread, hheld.2 ⟨.a, rfl, hstored⟩]
  · exact (button_afterActions hb actions Button.b.line).trans (congrArg Except.ok (by decide))
  · intro button
    cases button <;> decide

end Board

end Handheld
