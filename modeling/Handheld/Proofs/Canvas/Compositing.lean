import Handheld.Canvas.Command
import Handheld.Proofs.Number.Rounding

/-!
# Compositing

The integer arithmetic of `Color.onto` beside exact arithmetic. A quotient by `255` with `127` added
before the division is the integer nearest to the exact quotient, and as `255` is odd no other
integer is as near. The channels are rounded means and stay between the two values that they mix;
the coverage never shrinks and never passes opaque, so a picture without a gap keeps none.

* `abs_rounded_sub_lt`: how far a rounded quotient is from the exact one.
* `onto_eq_blend`: the shortcuts for opaque and transparent sources are cases of the formulas.
* `composite_onto`: what every composition has.
* `channel_onto_mono`: more light above or below never gives less.
* `Canvas.OpaqueInAlpha.execAll`: drawing in alpha mode leaves an opaque canvas opaque.
* `composites_round_to_nearest`: all of it for all colors, pens and drawings.
-/

namespace Handheld

/-- One of the channels that a composition mixes. -/
inductive Channel where
  | red
  | green
  | blue
deriving DecidableEq, Repr

namespace Color

/-- The value of a channel. -/
def channel (c : Color) : Channel → Nat
  | .red => c.r.toNat
  | .green => c.g.toNat
  | .blue => c.b.toNat

/-- The coverage as a number from 0 to 255. -/
def coverage (c : Color) : Nat := c.a.toNat

theorem channel_le (c : Color) (ch : Channel) : c.channel ch ≤ 255 := by
  cases ch with
  | red => exact Nat.le_of_lt_succ c.r.toNat_lt
  | green => exact Nat.le_of_lt_succ c.g.toNat_lt
  | blue => exact Nat.le_of_lt_succ c.b.toNat_lt

theorem coverage_le (c : Color) : c.coverage ≤ 255 := Nat.le_of_lt_succ c.a.toNat_lt

theorem coverage_eq_iff {c : Color} : c.coverage = 255 ↔ c.a = 255 := UInt8.toNat_inj (b := 255)

/-- Colors with the same channels and the same coverage are the same. -/
theorem ext_channel {c d : Color} (hchannel : ∀ ch, c.channel ch = d.channel ch)
    (hcoverage : c.coverage = d.coverage) : c = d := by
  have hr : c.r = d.r := UInt8.toNat_inj.1 (hchannel .red)
  have hg : c.g = d.g := UInt8.toNat_inj.1 (hchannel .green)
  have hb : c.b = d.b := UInt8.toNat_inj.1 (hchannel .blue)
  have ha : c.a = d.a := UInt8.toNat_inj.1 hcoverage
  cases c
  cases d
  simp only [mk.injEq]
  exact ⟨hr, hg, hb, ha⟩

/-! ## Rounding -/

/-- The natural number is the integer nearest to a rational one, and no other is as near. -/
def IsRounded (n : Nat) (x : ℚ) : Prop := ∀ k : ℤ, k ≠ n → |(n : ℚ) - x| < |(k : ℚ) - x|

/-- The mean of two channel values, weighted by the coverage of the first. -/
def exactMean (s d a : Nat) : ℚ := (s * a + d * (255 - a)) / 255

/-- The coverage of two colors together. -/
def exactCover (a da : Nat) : ℚ := a + da * (255 - a) / 255

theorem isRounded_of_abs_lt {n : Nat} {x : ℚ} (h : |(n : ℚ) - x| < 1 / 2) : IsRounded n x := by
  intro k hk
  have hunit := le_abs_sub_add_abs_sub hk x zero_le_one
  rw [mul_one, mul_one, Int.cast_natCast] at hunit
  linarith

/-- A quotient by 255, rounded by adding 127, is less than half away from the exact one. -/
theorem abs_rounded_sub_lt (k n : Nat) :
    |((k + (n + 127) / 255 : Nat) : ℚ) - (k + n / 255)| < 1 / 2 := by
  -- 255 times the quotient is within 127 of `n` on either side, and twice 127 is below 255.
  have habove : ((255 * ((n + 127) / 255) : Nat) : ℚ) ≤ (n + 127 : Nat) :=
    Nat.cast_le.2 (Nat.mul_div_le (n + 127) 255)
  have hbelow : (n : ℚ) ≤ (255 * ((n + 127) / 255) + 127 : Nat) := Nat.cast_le.2 (by omega)
  generalize (n + 127) / 255 = q at *
  push_cast at habove hbelow ⊢
  rw [add_sub_add_left_eq_sub, abs_lt]
  constructor
  · linarith
  · linarith

theorem isRounded_mixed (s d : Nat) {a : Nat} (ha : a ≤ 255) :
    IsRounded (mixed s d a) (exactMean s d a) := by
  apply isRounded_of_abs_lt
  have h := abs_rounded_sub_lt 0 (s * a + d * (255 - a))
  rw [Nat.zero_add, Nat.cast_zero, zero_add] at h
  push_cast [ha] at h
  rw [exactMean, mixed]
  exact_mod_cast h

theorem isRounded_covered (da : Nat) {a : Nat} (ha : a ≤ 255) :
    IsRounded (covered a da) (exactCover a da) := by
  apply isRounded_of_abs_lt
  have h := abs_rounded_sub_lt a (da * (255 - a))
  push_cast [ha] at h
  rw [exactCover, covered]
  exact_mod_cast h

/-! ## Order -/

theorem mixed_mono {s s' d d' : Nat} (hs : s ≤ s') (hd : d ≤ d') (a : Nat) :
    mixed s d a ≤ mixed s' d' a := by
  rw [mixed, mixed]
  apply Nat.div_le_div_right
  apply Nat.add_le_add_right
  exact Nat.add_le_add (Nat.mul_le_mul_right a hs) (Nat.mul_le_mul_right (255 - a) hd)

/-- The mean of a value with itself is that value. -/
theorem mixed_self (m : Nat) {a : Nat} (ha : a ≤ 255) : mixed m m a = m := by
  rw [mixed, ← Nat.mul_add, Nat.add_sub_cancel' ha]
  omega

theorem min_le_mixed (s d : Nat) {a : Nat} (ha : a ≤ 255) : min s d ≤ mixed s d a :=
  calc min s d = mixed (min s d) (min s d) a := (mixed_self _ ha).symm
    _ ≤ mixed s d a := mixed_mono (Nat.min_le_left s d) (Nat.min_le_right s d) a

theorem mixed_le_max (s d : Nat) {a : Nat} (ha : a ≤ 255) : mixed s d a ≤ max s d :=
  calc mixed s d a ≤ mixed (max s d) (max s d) a :=
        mixed_mono (Nat.le_max_left s d) (Nat.le_max_right s d) a
    _ = max s d := mixed_self _ ha

/-- Together two colors cover at least what either covers alone. -/
theorem max_le_covered (a : Nat) {da : Nat} (hda : da ≤ 255) : max a da ≤ covered a da := by
  -- What `da` has beyond `a` is at most its share of what `a` leaves open.
  have hshare : (da - a) * 255 ≤ da * (255 - a) := by
    rw [Nat.sub_mul, Nat.mul_sub]
    apply Nat.sub_le_sub_left
    rw [Nat.mul_comm da a]
    exact Nat.mul_le_mul_left a hda
  have hrest : da - a ≤ (da * (255 - a) + 127) / 255 :=
    (Nat.le_div_iff_mul_le (by decide)).2 (Nat.le_add_right_of_le hshare)
  rw [covered]
  omega

theorem covered_full {a : Nat} (ha : a ≤ 255) : covered a 255 = 255 := by
  rw [covered]
  omega

/-! ## Compositions -/

/-- The byte of a mixed channel holds all of it. -/
theorem channel_blend (src dst : Color) (ch : Channel) :
    (blend src dst).channel ch = mixed (src.channel ch) (dst.channel ch) src.coverage := by
  have hlt : mixed (src.channel ch) (dst.channel ch) src.coverage < UInt8.size :=
    Nat.lt_succ_of_le (mixed_le (src.channel_le ch) (dst.channel_le ch) src.coverage_le)
  cases ch with
  | red => exact UInt8.toNat_ofNat_of_lt' hlt
  | green => exact UInt8.toNat_ofNat_of_lt' hlt
  | blue => exact UInt8.toNat_ofNat_of_lt' hlt

/-- The byte of the coverage holds all of it. -/
theorem coverage_blend (src dst : Color) :
    (blend src dst).coverage = covered src.coverage dst.coverage :=
  UInt8.toNat_ofNat_of_lt' (Nat.lt_succ_of_le (covered_le src.coverage_le dst.coverage_le))

/-- The formulas give an opaque source itself and leave the color below a transparent one. -/
theorem onto_eq_blend (src dst : Color) : src.onto dst = blend src dst := by
  -- A shortcut is taken where one of the two weights is zero and the other one divides out.
  by_cases hfull : src.a = 255
  · have ha : src.coverage = 255 := coverage_eq_iff.2 hfull
    have hself := onto_of_opaque hfull dst
    rw [hself]
    apply ext_channel
    · intro ch
      rw [channel_blend, ha, mixed]
      omega
    · have hd := dst.coverage_le
      rw [coverage_blend, ha, covered]
      omega
  · by_cases htransparent : src.a = 0
    · have ha : src.coverage = 0 := congrArg UInt8.toNat htransparent
      rw [onto_of_transparent htransparent]
      apply ext_channel
      · intro ch
        rw [channel_blend, ha, mixed]
        omega
      · rw [coverage_blend, ha, covered]
        omega
    · rw [onto, if_neg hfull, if_neg htransparent]

theorem channel_onto (src dst : Color) (ch : Channel) :
    (src.onto dst).channel ch = mixed (src.channel ch) (dst.channel ch) src.coverage := by
  rw [onto_eq_blend, channel_blend]

theorem coverage_onto (src dst : Color) :
    (src.onto dst).coverage = covered src.coverage dst.coverage := by
  rw [onto_eq_blend, coverage_blend]

/-- What the composition of one color over another has. -/
structure Composite (src dst out : Color) : Prop where
  /-- Every channel is the rounded mean. -/
  channel_isRounded : ∀ ch,
    IsRounded (out.channel ch) (exactMean (src.channel ch) (dst.channel ch) src.coverage)
  /-- Every channel lies between the two that it mixes. -/
  channel_between : ∀ ch, min (src.channel ch) (dst.channel ch) ≤ out.channel ch ∧
    out.channel ch ≤ max (src.channel ch) (dst.channel ch)
  /-- The coverage is the rounded one of both colors together. -/
  coverage_isRounded : IsRounded out.coverage (exactCover src.coverage dst.coverage)
  /-- The coverage is at least that of either color, and at most opaque. -/
  coverage_between : max src.coverage dst.coverage ≤ out.coverage ∧ out.coverage ≤ 255
  /-- Over an opaque color it is opaque. -/
  full_of_full : dst.a = 255 → out.a = 255

/-- No number on the way to a composition is larger than the word that holds it. -/
structure Uncut (src dst : Color) : Prop where
  /-- The weighted sum of a channel fits in 32 bits. -/
  channel_sum_lt : ∀ ch,
    src.channel ch * src.coverage + dst.channel ch * (255 - src.coverage) + 127 < UInt32.size
  /-- The weighted sum of the coverage fits in 32 bits. -/
  coverage_sum_lt : dst.coverage * (255 - src.coverage) + 127 < UInt32.size
  /-- The byte of a channel holds the whole quotient. -/
  channel_blend_eq : ∀ ch,
    (blend src dst).channel ch = mixed (src.channel ch) (dst.channel ch) src.coverage
  /-- The byte of the coverage holds the whole sum. -/
  coverage_blend_eq : (blend src dst).coverage = covered src.coverage dst.coverage

theorem uncut (src dst : Color) : Uncut src dst where
  channel_sum_lt ch := by
    have hs := Nat.mul_le_mul (src.channel_le ch) src.coverage_le
    have hd := Nat.mul_le_mul (dst.channel_le ch) (Nat.sub_le 255 src.coverage)
    rw [UInt32.size]
    omega
  coverage_sum_lt := by
    have hd := Nat.mul_le_mul dst.coverage_le (Nat.sub_le 255 src.coverage)
    rw [UInt32.size]
    omega
  channel_blend_eq := channel_blend src dst
  coverage_blend_eq := coverage_blend src dst

theorem opaque_onto {dst : Color} (h : dst.a = 255) (src : Color) : (src.onto dst).a = 255 := by
  rw [← coverage_eq_iff, coverage_onto, coverage_eq_iff.2 h, covered_full src.coverage_le]

theorem composite_onto (src dst : Color) : Composite src dst (src.onto dst) where
  channel_isRounded ch := channel_onto src dst ch ▸ isRounded_mixed _ _ src.coverage_le
  channel_between ch := by
    rw [channel_onto]
    exact ⟨min_le_mixed _ _ src.coverage_le, mixed_le_max _ _ src.coverage_le⟩
  coverage_isRounded := coverage_onto src dst ▸ isRounded_covered _ src.coverage_le
  coverage_between := by
    rw [coverage_onto]
    exact ⟨max_le_covered _ dst.coverage_le, covered_le src.coverage_le dst.coverage_le⟩
  full_of_full h := opaque_onto h src

/-- With one coverage, larger values above and below never give a smaller one. -/
theorem channel_onto_mono {src src' dst dst' : Color} (ha : src'.a = src.a) {ch : Channel}
    (hs : src.channel ch ≤ src'.channel ch) (hd : dst.channel ch ≤ dst'.channel ch) :
    (src.onto dst).channel ch ≤ (src'.onto dst').channel ch := by
  have hcoverage : src'.coverage = src.coverage := congrArg UInt8.toNat ha
  rw [channel_onto, channel_onto, hcoverage]
  exact mixed_mono hs hd src.coverage

end Color

/-! ## Opaque canvases -/

/-- No point of the frame lets anything through. -/
def Frame.IsOpaque (f : Frame) : Prop := ∀ x y color, f.get? x y = some color → color.a = 255

/-- A frame of one opaque color is opaque. -/
theorem Frame.isOpaque_filled (width height : Int) {color : Color} (h : color.a = 255) :
    (filled width height color).IsOpaque := by
  intro x y shown hshown
  obtain ⟨i, -, hpixel⟩ := Option.bind_eq_some_iff.1 hshown
  rw [filled, Array.getElem?_replicate] at hpixel
  split at hpixel
  · exact Option.some.inj hpixel ▸ h
  · cases hpixel

/-- A frame that shows at every point what another one shows there, changed or not, is opaque like
the other one if the change keeps opaque colors opaque. -/
theorem Frame.IsOpaque.of_change {f g : Frame} (hf : f.IsOpaque) {change : Color → Color}
    (hchange : ∀ color, color.a = 255 → (change color).a = 255)
    (h : ∀ x y, g.get? x y = (f.get? x y).map change ∨ g.get? x y = f.get? x y) : g.IsOpaque := by
  intro x y color hcolor
  rcases h x y with hmap | hkeep
  · obtain ⟨old, hold, rfl⟩ := Option.map_eq_some_iff.1 (hmap ▸ hcolor)
    exact hchange old (hf x y old hold)
  · exact hf x y color (hkeep ▸ hcolor)

theorem Frame.IsOpaque.paint {f : Frame} (hf : f.IsOpaque) {change : Color → Color}
    (hchange : ∀ color, color.a = 255 → (change color).a = 255) (x y : Int) :
    (f.paint x y change).IsOpaque := by
  apply hf.of_change hchange
  intro px py
  rw [get?_paint]
  split
  · exact .inl rfl
  · exact .inr rfl

namespace Canvas

/-- No point of the canvas lets anything through. -/
def IsOpaque (c : Canvas) : Prop := c.frame.IsOpaque

/-- Whatever its color, a pen in alpha mode leaves an opaque pixel opaque. -/
theorem opaque_apply {pen : Pen} (h : pen.blend = .alpha) (under : Color) (hunder : under.a = 255) :
    (pen.apply under).a = 255 := by
  rw [Pen.apply, h]
  exact Color.opaque_onto hunder pen.color

theorem IsOpaque.rect {c : Canvas} (hc : c.IsOpaque) (halpha : c.pen.blend = .alpha)
    (x y w h : Int) : (c.rect x y w h).IsOpaque := by
  apply Frame.IsOpaque.of_change hc (opaque_apply halpha)
  intro px py
  by_cases hin : x ≤ px ∧ px < x + w ∧ y ≤ py ∧ py < y + h
  · exact .inl ((c.get?_rect x y w h px py).trans (if_pos hin))
  · exact .inr ((c.get?_rect x y w h px py).trans (if_neg hin))

theorem IsOpaque.plot {c : Canvas} (hc : c.IsOpaque) (halpha : c.pen.blend = .alpha)
    (dots : List Dot) : (c.plot dots).IsOpaque := by
  induction dots generalizing c with
  | nil => exact hc
  | cons d rest ih =>
    have hpen : (Pen.mk d.color c.pen.blend).blend = .alpha := halpha
    have hfirst : IsOpaque { c with
        frame := c.frame.paint d.x d.y (Pen.apply ⟨d.color, c.pen.blend⟩) } :=
      Frame.IsOpaque.paint hc (opaque_apply hpen) d.x d.y
    exact ih hfirst halpha

end Canvas

/-- The command draws through the blend mode and does not leave alpha mode. -/
def Command.Composes : Command → Prop
  | .setBlend .copy => False
  | .clear => False
  | .blit .. => False
  | _ => True

namespace Canvas

/-- A canvas without a gap, drawn on in alpha mode. -/
structure OpaqueInAlpha (c : Canvas) : Prop where
  isOpaque : c.IsOpaque
  blend_eq : c.pen.blend = .alpha

theorem OpaqueInAlpha.plot {c : Canvas} (hc : c.OpaqueInAlpha) (dots : List Dot) :
    (c.plot dots).OpaqueInAlpha :=
  ⟨hc.isOpaque.plot hc.blend_eq dots, hc.blend_eq⟩

/-- A command that composes leaves no gap, whatever the pen's color and however it ends, and stays
in alpha mode. -/
theorem OpaqueInAlpha.exec {command : Command} (h : command.Composes) :
    (Canvas.exec command).Keeps OpaqueInAlpha := by
  intro c hc
  cases command with
  | setColor color => exact ⟨hc.isOpaque, hc.blend_eq⟩
  | setBlend blend =>
    cases blend with
    | copy => exact h.elim
    | alpha => exact ⟨hc.isOpaque, rfl⟩
  | clear => exact h.elim
  | blit => exact h.elim
  | pixel x y =>
    exact ⟨Frame.IsOpaque.paint hc.isOpaque (opaque_apply hc.blend_eq) x y, hc.blend_eq⟩
  | hline | vline | rect => exact ⟨hc.isOpaque.rect hc.blend_eq _ _ _ _, hc.blend_eq⟩
  | plot | fillSolid | fillContiguous | fillAll => exact hc.plot _
  | text text x y wrap => exact keeps_write (fun _ dots hd => hd.plot dots) text x y wrap c hc

/-- A drawing made of commands that compose leaves no gap. -/
theorem OpaqueInAlpha.execAll {commands : List Command}
    (h : ∀ command ∈ commands, command.Composes) :
    (Canvas.execAll commands).Keeps OpaqueInAlpha :=
  Step.keeps_each fun command hmem => exec (h command hmem)

end Canvas

/-- For all colors. A composition is rounded to the nearest integers and stays between what it
composes, no number on the way is cut, and the shortcuts for opaque and transparent sources give
what the formulas give. With one coverage the channels grow with those above and below. So drawings
in alpha mode, with any pens and in any colors of their own, leave an opaque canvas opaque, also if
they stop half-way. -/
theorem Color.composites_round_to_nearest (src dst : Color) :
    Composite src dst (src.onto dst) ∧ Uncut src dst ∧ src.onto dst = blend src dst ∧
      (∀ (src' dst' : Color) (ch : Channel), src'.a = src.a →
        src.channel ch ≤ src'.channel ch → dst.channel ch ≤ dst'.channel ch →
          (src.onto dst).channel ch ≤ (src'.onto dst').channel ch) ∧
      ∀ (c : Canvas) (commands : List Command), c.IsOpaque → c.pen.blend = .alpha →
        (∀ command ∈ commands, command.Composes) →
          ((Canvas.execAll commands).start c).2.IsOpaque := by
  refine ⟨composite_onto src dst, uncut src dst, onto_eq_blend src dst, ?_, ?_⟩
  · intro src' dst' ch ha hs hd
    exact channel_onto_mono ha hs hd
  · intro c commands hfull halpha hcommands
    have hc : c.OpaqueInAlpha := ⟨hfull, halpha⟩
    exact (Canvas.OpaqueInAlpha.execAll hcommands c hc).isOpaque

/-- Half red over two blues, and drawn on an opaque canvas in between fills of no coverage. -/
theorem Color.composite_of_half_red :
    let red : Color := ⟨255, 0, 0, 128⟩
    let c : Canvas := ⟨.filled 2 1 (.rgb 0 0 200), ⟨red, .alpha⟩⟩
    let commands : List Command := [.fillAll .transparent, .rect 0 0 2 1, .setColor .transparent]
    red.onto (.rgb 0 0 200) = .rgb 128 0 100 ∧ red.onto (.rgb 0 0 255) = .rgb 128 0 127 ∧
      (red.onto (.rgb 0 0 200)).channel .blue ≤ (red.onto (.rgb 0 0 255)).channel .blue ∧
      ((Canvas.execAll commands).start c).2.IsOpaque := by
  intro red c commands
  have hcommands : ∀ command ∈ commands, command.Composes := by
    simp [commands, Command.Composes]
  obtain ⟨-, -, hformula, hmono, hdrawn⟩ := composites_round_to_nearest red (.rgb 0 0 200)
  refine ⟨hformula.trans (by decide), by decide, ?_, ?_⟩
  · exact hmono red (.rgb 0 0 255) .blue rfl (Nat.le_refl _) (by decide)
  · exact hdrawn c commands (Frame.isOpaque_filled 2 1 rfl) rfl hcommands

end Handheld
