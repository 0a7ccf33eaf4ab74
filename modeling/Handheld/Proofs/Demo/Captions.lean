import Handheld.Demo.Captions
import Handheld.Proofs.Canvas.Writing
import Handheld.Proofs.Run.Schedule

/-!
# The track of the sliding box

The box runs from the right end of its track to the left one and back, by the remainder of the tick
by twice the track's length. The tick is an unsigned word that is read as a signed one. In the lower
half of the ticks that makes no difference, and the box stays on its track. In the upper half the
tick reads as a negative number, whose remainder is negative as well, so that the box starts beyond
the right end of the track by the remainder of what is left until the ticks start over; on a wide
canvas the place is no signed word then.

* `boxLeft_of_lower`: the lower half of the ticks.
* `boxLeft_of_upper`: the upper half.
* `get?_drawn`: the color of every point after a draw.
* `start_draw`: how a draw ends, and what it leaves.
* `box_stays_on_track_in_lower_half`: all of it for every tick, and for the ticks of a run.
-/

namespace Handheld.Demo.Captions

open Text (mask)

variable {width : Nat} {tick : UInt32}

/-! ## The place of the box -/

/-- The first word that reads as a negative number when it is signed. -/
def halfway : Nat := UInt32.size / 2

/-- What is left of the ticks until they start over, less whole ways along the track and back. -/
def overshoot (width : Nat) (tick : UInt32) : Int :=
  (UInt32.size - tick.toNat : Int) % (2 * span width)

theorem one_le_span (width : Nat) : 1 ≤ span width := Int.le_max_right ..

theorem span_lt (h : width ≤ UInt32.size / 4) : span width < UInt32.size / 4 := by
  have hsize : UInt32.size = 4294967296 := rfl
  unfold span boxWidth
  omega

theorem toInt_toInt32 (tick : UInt32) :
    tick.toInt32.toInt =
      if tick.toNat < halfway then (tick.toNat : Int) else tick.toNat - UInt32.size := by
  have hsize : UInt32.size = 4294967296 := rfl
  rw [Int32.toInt, UInt32.toBitVec_toInt32, BitVec.toInt_eq_toNat_cond]
  have hhalf : 2 * tick.toBitVec.toNat < 2 ^ 32 ↔ tick.toNat < halfway := by
    show 2 * tick.toNat < _ ↔ _
    unfold halfway
    omega
  exact if_congr hhalf rfl rfl

/-- The way along the track and back is a signed word, so only the last two steps can go wrong. -/
theorem boxLeft_eq (h : width ≤ UInt32.size / 4) {place : Int}
    (hplace : tick.toInt32.toInt.tmod (2 * span width) = place) :
    boxLeft width tick =
      if (place - span width).natAbs ≤ Word32.greatest then .ok ((place - span width).natAbs : Int)
      else if place - span width = Word32.least then .error (.overflow .negate)
      else .error (.overflow .subtract) := by
  have hsize : UInt32.size = 4294967296 := rfl
  have hlower := one_le_span width
  have hupper := span_lt h
  have hperiod : Word32.mul 2 (span width) = .ok (2 * span width) := by
    refine Word32.checked_eq_ok_iff.2 ⟨?_, rfl⟩
    unfold Word32.Fits Word32.least Word32.greatest
    omega
  rw [← Word32.sub_bind_abs, boxLeft, hperiod, ← hplace]
  rfl

theorem emod_span_bounds (width : Nat) (n : Int) :
    0 ≤ n % (2 * span width) ∧ n % (2 * span width) < 2 * span width := by
  have hspan := one_le_span width
  exact ⟨Int.emod_nonneg _ (by omega), Int.emod_lt_of_pos _ (by omega)⟩

/-- In the lower half of the ticks the box is on its track, as far from the left end as the tick is
from the middle of its way. -/
theorem boxLeft_of_lower (h : width ≤ UInt32.size / 4) (htick : tick.toNat < halfway) :
    boxLeft width tick =
      .ok (((tick.toNat : Int) % (2 * span width) - span width).natAbs : Int) := by
  have hsize : UInt32.size = 4294967296 := rfl
  have hspan := span_lt h
  obtain ⟨hlower, hupper⟩ := emod_span_bounds width tick.toNat
  have hplace : tick.toInt32.toInt.tmod (2 * span width) = tick.toNat % (2 * span width) := by
    rw [toInt_toInt32, if_pos htick,
      Int.tmod_eq_emod_of_nonneg (Int.natCast_nonneg tick.toNat)]
  have hfits : (((tick.toNat : Int) % (2 * span width) - span width).natAbs : Int) ≤
      Word32.greatest := by
    unfold Word32.greatest
    omega
  rw [boxLeft_eq h hplace, if_pos hfits]

/-- In the upper half the box starts beyond the right end of its track, or the place is no signed
word: it is the opposite of the least one, or further away. -/
theorem boxLeft_of_upper (h : width ≤ UInt32.size / 4) (htick : halfway ≤ tick.toNat) :
    boxLeft width tick =
      if span width + overshoot width tick < halfway then .ok (span width + overshoot width tick)
      else if span width + overshoot width tick = halfway then .error (.overflow .negate)
      else .error (.overflow .subtract) := by
  have hhalfway : (halfway : Int) = -Word32.least := rfl
  have hgreatest : (halfway : Int) = Word32.greatest + 1 := rfl
  have hspan := one_le_span width
  have htick' : tick.toNat < UInt32.size := tick.toNat_lt
  have hbeyond : 0 ≤ overshoot width tick := (emod_span_bounds ..).1
  -- The remainder of a negative number is that of its magnitude with the other sign.
  have hplace : tick.toInt32.toInt.tmod (2 * span width) = -overshoot width tick := by
    have hneg : (tick.toNat - UInt32.size : Int) = -(UInt32.size - tick.toNat) := by omega
    rw [toInt_toInt32, if_neg (Nat.not_lt.2 htick), hneg, Int.neg_tmod,
      Int.tmod_eq_emod_of_nonneg (by omega)]
    rfl
  have hnat : ((-overshoot width tick - span width).natAbs : Int) =
      span width + overshoot width tick := by
    omega
  have hfits : span width + overshoot width tick ≤ Word32.greatest ↔
      span width + overshoot width tick < halfway := by
    omega
  have hleast : -overshoot width tick - span width = Word32.least ↔
      span width + overshoot width tick = halfway := by
    omega
  rw [boxLeft_eq h hplace, hnat]
  simp only [hfits, hleast]

/-! ## A draw -/

/-- The color of a point of a picture with the box at a column: the time, over the paragraph, over
the box, over the ground. -/
def pictured (width height : Nat) (uptime : UInt64) (left x y : Int) : Color :=
  if (x - margin, y - (height - 28)) ∈ mask (uptimeText uptime.toNat).toList none then
    .rgb 160 255 160
  else if (x - margin, y - margin) ∈ mask body.toList (some (width - 2 * margin)) then .white
  else if left ≤ x ∧ x < left + boxWidth ∧ margin ≤ y ∧
      y < margin + (height : Int).tdiv 2 then .rgb 108 79 37
  else .rgb 20 30 60

/-- A canvas with the box on it. -/
def withBox (left : Int) (c : Canvas) : Canvas :=
  ((c.setBlend .alpha).setColor ⟨255, 160, 0, 96⟩).rect left margin boxWidth
    ((c.height : Int).tdiv 2)

/-- A canvas with the paragraph on it, in white. -/
def withBody (c : Canvas) : Canvas :=
  (c.setColor .white).withText body.toList margin margin (some (c.width - 2 * margin))

/-- A canvas with the time on it. -/
def withUptime (uptime : UInt64) (c : Canvas) : Canvas :=
  (c.setColor (.rgb 160 255 160)).withText (uptimeText uptime.toNat).toList margin (c.height - 28)
    none

/-- The paragraph has fewer lines than can be drawn, in every width. -/
theorem drawable_body (wrap : Int) : Text.Drawable body.toList (some wrap) := by
  have hlength : body.length ≤ 100 + 100 + 100 + 100 :=
    Text.length_append_le (Text.length_append_le (Text.length_append_le (by decide +kernel)
      (by decide +kernel)) (by decide +kernel)) (by decide +kernel)
  refine Canvas.drawable_of_length_lt ?_ wrap
  rw [String.length_toList]
  exact Nat.lt_of_le_of_lt hlength (by decide)

theorem newline_not_mem_threeDigits (n : Nat) : '\n' ∉ (threeDigits n).toList := by
  refine Text.newline_not_mem_append (fun h => ?_) (Text.newline_not_mem_toString n)
  rw [String.toList_ofList] at h
  cases (List.mem_replicate.1 h).2

/-- The line with the time is a single one. -/
theorem newline_not_mem_uptimeText (us : Nat) : '\n' ∉ (uptimeText us).toList :=
  Text.newline_not_mem_append (Text.newline_not_mem_append (Text.newline_not_mem_append
    (Text.newline_not_mem_append (by decide) (Text.newline_not_mem_toString _)) (by decide))
    (newline_not_mem_threeDigits _)) (by decide)

/-- Under the box and the paragraph the canvas keeps its size, and the drawing goes on with the
time. -/
theorem start_drawBody_eq (left : Int) (uptime : UInt64) (c : Canvas) :
    (drawBody left uptime).start c =
      (Canvas.write (uptimeText uptime.toNat).toList margin (c.height - 28) none).start
        ((withBody (withBox left c)).setColor (.rgb 160 255 160)) := by
  have hwidth : (withBox left c).width = c.width := Canvas.width_rect ..
  -- The paragraph is broken to the width of the whole canvas, which the box has not changed.
  have hwrite : (Canvas.write body.toList margin margin (some (c.width - 2 * margin))).start
      ((withBox left c).setColor .white) = (.ok (), withBody (withBox left c)) := by
    rw [withBody, hwidth]
    exact Canvas.start_write_of_near_top _ (drawable_body _) (by decide) (by decide)
  rw [drawBody, Step.start_bind_of_ok (Step.start_get c), Step.start_bind_of_ok (Step.start_get c),
    Step.start_bind_of_ok (Step.start_modify _ c), ← withBox, Step.start_bind_of_ok hwrite,
    Step.start_bind_of_ok (Step.start_modify _ _)]

/-- Both texts can be drawn, so that the drawing does not stop. -/
theorem fst_start_drawBody (left : Int) (uptime : UInt64) (c : Canvas) :
    ((drawBody left uptime).start c).1 = .ok () := by
  rw [start_drawBody_eq, Canvas.fst_start_write]
  exact if_pos (Canvas.drawable_of_newline_not_mem (newline_not_mem_uptimeText _))

/-- On a canvas whose rows are counted by a signed word the drawing gives the box and the texts. -/
theorem start_drawBody (left : Int) (uptime : UInt64) {c : Canvas}
    (h : (c.height : Int) ≤ Word32.greatest) :
    (drawBody left uptime).start c = (.ok (), withUptime uptime (withBody (withBox left c))) := by
  have hrow : Word32.Fits (c.height - 28) := by
    unfold Word32.Fits Word32.least
    omega
  have hheight : (withBody (withBox left c)).height = c.height :=
    (Canvas.height_plot ..).trans (Canvas.height_rect ..)
  rw [start_drawBody_eq, withUptime, hheight]
  exact Canvas.start_write_of_newline_not_mem _ (newline_not_mem_uptimeText _) margin hrow

/-- The translucent box over the ground. -/
theorem get?_withBox {c : Canvas} {x y : Int} (hground : c.get? x y = some (.rgb 20 30 60))
    (left : Int) :
    (withBox left c).get? x y =
      some (if left ≤ x ∧ x < left + boxWidth ∧ margin ≤ y ∧
        y < margin + (c.height : Int).tdiv 2 then .rgb 108 79 37 else .rgb 20 30 60) := by
  have hmixed : Color.onto ⟨255, 160, 0, 96⟩ (.rgb 20 30 60) = .rgb 108 79 37 := by decide
  have hkeep : ((c.setBlend .alpha).setColor ⟨255, 160, 0, 96⟩).get? x y =
      some (.rgb 20 30 60) := hground
  rw [withBox, Canvas.get?_rect, hkeep]
  split
  · exact congrArg some hmixed
  · rfl

/-- Nothing is left of what was drawn before, and the box is seen where no text covers it. -/
theorem get?_drawn {c : Canvas} {x y : Int} (hin : c.frame.Contains x y) (left : Int)
    (uptime : UInt64) :
    (withUptime uptime (withBody (withBox left (drawGround c)))).get? x y =
      some (pictured c.width c.height uptime left x y) := by
  have hground : (drawGround c).get? x y = some (.rgb 20 30 60) :=
    (Canvas.get?_clear ..).trans (if_pos hin)
  have hboxed := get?_withBox hground left
  have hwidth : (withBox left (drawGround c)).width = c.width := Canvas.width_rect ..
  have hheight : (withBody (withBox left (drawGround c))).height = c.height :=
    (Canvas.height_plot ..).trans (Canvas.height_rect ..)
  have hground' : (drawGround c).height = c.height := rfl
  -- Both texts are in opaque colors, which cover what is below.
  rw [withUptime, hheight, Canvas.get?_withText_of_stores rfl, withBody, hwidth,
    Canvas.get?_withText_of_stores rfl, hboxed, hground', pictured]
  simp only [Option.map_some]
  split
  · split <;> rfl
  · split <;> rfl

/-- A draw covers the canvas, and goes on if the place of the box is a signed word. -/
theorem start_draw (s : Scene Captions) (b : Board) (tick : UInt32) :
    (app.draw b tick).start s =
      match boxLeft s.canvas.width tick with
      | .ok left =>
        (.ok (), { s with
          canvas := ((drawBody left s.app.uptime).start (drawGround s.canvas)).2 })
      | .error p => (.error (.panic p), { s with canvas := drawGround s.canvas }) := by
  unfold app
  simp only
  rw [Step.start_bind_of_ok (Step.start_get s), Step.start_bind_of_ok (Scene.start_draw_modify _ s)]
  cases boxLeft s.canvas.width tick with
  | error p => exact Step.start_bind_of_error (Step.start_ofExcept_error p _) _
  | ok left =>
    rw [Step.start_bind_of_ok (Step.start_ofExcept_ok left _), Scene.draw, Step.start_on,
      fst_start_drawBody]

/-! ## The track -/

/-- On every canvas of up to `2 ^ 30` columns the box stays on its track in the lower half of the
ticks, which on a canvas of 61 columns or more means that it lies within the canvas. In the upper
half it starts beyond the right end of the track by what is left until the ticks start over, less
whole ways along the track and back; where that is no signed word, the draw stops. A draw that does
not stop shows the box at its place, under the texts and over the ground, if the rows of the canvas
are counted by a signed word. A run reaches the upper half with its frame number `2 ^ 31`, as its
ticks count the frames and wrap. -/
theorem box_stays_on_track_in_lower_half (width : Nat) (hwidth : width ≤ UInt32.size / 4)
    (tick : UInt32) :
    let track : Int := max (width - 60) 1
    let beyond : Int := (UInt32.size - tick.toNat) % (2 * track)
    (tick.toNat < UInt32.size / 2 →
      ∃ x : Int, boxLeft width tick = .ok x ∧ x = (tick.toNat % (2 * track) - track).natAbs ∧
        0 ≤ x ∧ x ≤ track ∧ (61 ≤ width → x + 60 ≤ width)) ∧
    (UInt32.size / 2 ≤ tick.toNat →
      boxLeft width tick =
        if track + beyond < (UInt32.size / 2 : Nat) then .ok (track + beyond)
        else if track + beyond = (UInt32.size / 2 : Nat) then .error (.overflow .negate)
        else .error (.overflow .subtract)) ∧
    (∀ (s : Scene Captions) (b : Board), s.canvas.width = width →
      (∀ x, boxLeft width tick = .ok x →
        ∃ c, (app.draw b tick).start s = (.ok (), { s with canvas := c }) ∧
          ((s.canvas.height : Int) ≤ Word32.greatest → ∀ px py, s.canvas.frame.Contains px py →
            c.get? px py = some (pictured width s.canvas.height s.app.uptime x px py))) ∧
      ∀ p, boxLeft width tick = .error p →
        ((app.draw b tick).start s).1 = .error (.panic p)) ∧
    ∀ n k done, Stage.Place n k done (.draw tick) → tick.toNat = k % UInt32.size := by
  intro track beyond
  have htrack := one_le_span width
  refine ⟨fun htick => ⟨_, boxLeft_of_lower hwidth htick, rfl, Int.natCast_nonneg _, ?_, ?_⟩,
    fun htick => boxLeft_of_upper hwidth htick, fun s b hs => ⟨fun x hx => ?_, fun p hp => ?_⟩,
    fun n k done hplace => ?_⟩
  · obtain ⟨hlower, hupper⟩ := emod_span_bounds width tick.toNat
    show _ ≤ span width
    omega
  · intro hroom
    obtain ⟨hlower, hupper⟩ := emod_span_bounds width tick.toNat
    have hspan : span width = width - 60 := Int.max_eq_left (by unfold boxWidth; omega)
    omega
  · refine ⟨((drawBody x s.app.uptime).start (drawGround s.canvas)).2, ?_,
      fun hheight px py hin => ?_⟩
    · rw [start_draw, hs, hx]
    · have hground : ((drawGround s.canvas).height : Int) ≤ Word32.greatest := hheight
      rw [start_drawBody x _ hground, get?_drawn hin, hs]
  · rw [start_draw, hs, hp]
  · cases hplace
    exact UInt32.toNat_ofNat'

/-- One tick past the middle of the ticks the box starts at column 2 of a canvas with 61 columns,
and so ends behind the last one, while its track ends at column 1. -/
theorem box_leaves_canvas :
    let s : Scene Captions := ⟨⟨.initial, .initial, #[]⟩, ⟨.filled 61 48 .black, .initial⟩⟩
    61 ≤ UInt32.size / 4 ∧ boxLeft 61 2147483649 = .ok 2 ∧
      ∃ c, (app.draw default 2147483649).start s = (.ok (), { s with canvas := c }) ∧
        c.get? 1 6 = some (.rgb 20 30 60) ∧ c.get? 2 6 = some (.rgb 108 79 37) := by
  intro s
  have hwidth : 61 ≤ UInt32.size / 4 := by decide
  obtain ⟨-, hupper, hdraw, -⟩ := box_stays_on_track_in_lower_half 61 hwidth 2147483649
  have hplace : boxLeft 61 2147483649 = .ok 2 := (hupper (by decide)).trans (by decide)
  obtain ⟨c, hc, hpoint⟩ := (hdraw s default rfl).1 2 hplace
  exact ⟨hwidth, hplace, c, hc, (hpoint (by decide) 1 6 (by decide)).trans (by decide +kernel),
    (hpoint (by decide) 2 6 (by decide)).trans (by decide +kernel)⟩

end Handheld.Demo.Captions
