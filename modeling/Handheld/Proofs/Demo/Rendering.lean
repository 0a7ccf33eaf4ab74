import Handheld.Proofs.Demo.Pictures
import Handheld.Proofs.Run.Kept

/-!
# How long core 1 renders

The colors of a picture are sums and a product of 32-bit words, cut to a byte. The sums wrap, and
three times the picture's number does not: where the lower 32 bits of the number are a third of the
words or more, the first pixel stops the rendering. Core 1 counts its pictures from zero, so it
renders a third of the words and stops in the turn after.

* `color_channels`: the channels of a pixel, by the full number of the picture.
* `After.run`: turns alone, from `After.turn`.
* `renders_until_number_triples_past_word`: which pictures are rendered, and for how many turns.
-/

namespace Handheld

/-! ## Colors -/

namespace Picture

theorem toNat_phase_mod (number : UInt64) (n k : Nat) :
    (n + phase number * k) % 256 = (n + k * number.toNat) % 256 := by
  have hbyte : phase number % 256 = number.toNat % 256 := by
    rw [phase_eq]
    exact Nat.mod_mod_of_dvd _ (by decide)
  rw [Nat.add_mod, Nat.mul_mod, hbyte, ← Nat.mul_mod, ← Nat.add_mod, Nat.mul_comm]

/-- Cutting the number to 32 bits first does not change the bytes. -/
theorem color_channels (number : UInt64) (i : Nat) :
    (color number i).r.toNat = (i % 160 + number.toNat) % 256 ∧
      (color number i).g.toNat = 2 * (i / 160) % 256 ∧
      (color number i).b.toNat = ((i % 160 ^^^ i / 160) + 3 * number.toNat) % 256 ∧
      (color number i).a = 255 := by
  refine ⟨?_, ?_, ?_, rfl⟩
  · show (UInt8.ofNat (i % 160 + phase number)).toNat = _
    have hbyte := toNat_phase_mod number (i % 160) 1
    rw [Nat.mul_one, Nat.one_mul] at hbyte
    rw [UInt8.toNat_ofNat']
    exact hbyte
  · show (UInt8.ofNat (i / 160 * 2)).toNat = _
    rw [UInt8.toNat_ofNat', Nat.mul_comm]
  · show (UInt8.ofNat ((i % 160 ^^^ i / 160) + phase number * 3)).toNat = _
    rw [UInt8.toNat_ofNat']
    exact toNat_phase_mod number _ 3

end Picture

/-! ## Turns -/

theorem SecondCore.run_add (c : SecondCore) (m n : Nat) : c.run (m + n) = (c.run m).run n := by
  induction m generalizing c with
  | zero => rw [Nat.zero_add, run]
  | succ m ih =>
    rw [Nat.add_right_comm]
    exact ih c.turn

/-- A stop in the first of some turns stays. -/
theorem SecondCore.fault_run {c : SecondCore} {message : String}
    (h : c.turn.fault = some message) {n : Nat} (hn : 0 < n) : (c.run n).fault = some message := by
  obtain ⟨n, rfl⟩ := Nat.exists_eq_succ_of_ne_zero (Nat.ne_of_gt hn)
  exact kept_run (P := (·.fault = some message)) (fun _ => fault_turn) n h

namespace Demo.DualCore

variable {turns : Nat} {s : Backstage DualCore}

/-- Turns that are not interrupted by draws. -/
theorem After.run (h : After turns s) (n : Nat) :
    After (turns + n) { s with core1 := s.core1.run n } := by
  induction n generalizing turns s with
  | zero => exact h
  | succ n ih =>
    have hrest := ih h.turn
    rwa [Nat.add_right_comm, Nat.add_assoc] at hrest

theorem After.fault_turn_at_limit (h : After Picture.limit s) :
    s.core1.turn.fault = some (Panic.overflow .multiply).message := by
  rw [h.turn_at_limit]

/-- Core 1 stops in one turn, and all later ones leave it as it is. -/
theorem After.fault_run_of_limit_lt (h : After 0 s) {n : Nat} (hn : Picture.limit < n) :
    (s.core1.run n).fault = some (Panic.overflow .multiply).message := by
  obtain ⟨more, hmore, rfl⟩ : ∃ more, 0 < more ∧ n = Picture.limit + more :=
    ⟨n - Picture.limit, by omega, by omega⟩
  have hlast := h.run Picture.limit
  rw [Nat.zero_add] at hlast
  rw [SecondCore.run_add]
  -- From here on it does not matter what so many turns lead to.
  generalize s.core1.run Picture.limit = c at hlast ⊢
  exact SecondCore.fault_run hlast.fault_turn_at_limit hmore

end Demo.DualCore

/-- A picture whose number is below a third of the words in its lower 32 bits is rendered whole:
each pixel is opaque, and its channels are the bytes of its column plus the number, of twice its
row, and of its column and row exclusively combined plus three times the number. Every other number
stops the rendering in the first pixel, if there is one. So core 1, which counts from zero, renders
that many pictures in as many turns, and stops in the turn after. -/
theorem Picture.renders_until_number_triples_past_word (number : UInt64) (len : Nat) :
    (len = 0 ∨ number.toNat % UInt32.size < limit →
      ∃ pixels, render len number = .ok pixels ∧ pixels.size = len ∧
        ∀ i < len, ∃ color, pixels[i]? = some color ∧
          color.r.toNat = (i % 160 + number.toNat) % 256 ∧
          color.g.toNat = 2 * (i / 160) % 256 ∧
          color.b.toNat = ((i % 160 ^^^ i / 160) + 3 * number.toNat) % 256 ∧ color.a = 255) ∧
    (0 < len → limit ≤ number.toNat % UInt32.size →
      render len number = .error (.overflow .multiply)) ∧
    ∀ s : Backstage Demo.DualCore, Demo.DualCore.Started s → ∀ turns,
      let core1 := s.core1.run turns
      core1.renderer.next.toNat = min turns limit ∧ (turns ≤ limit → core1.fault = none) ∧
        (limit < turns → core1.fault = some "attempt to multiply with overflow") := by
  refine ⟨fun h => ?_, render_of_limit_le, fun s hs turns => ?_⟩
  · obtain ⟨pixels, hrender⟩ : ∃ pixels, render len number = .ok pixels := by
      rcases h with rfl | h
      · exact ⟨_, if_neg fun h => absurd h.1 (Nat.lt_irrefl 0)⟩
      · exact exists_render_of_lt_limit len h
    exact ⟨pixels, hrender, size_render hrender, fun i hi =>
      ⟨color number i, getElem?_of_render hrender hi, color_channels number i⟩⟩
  · have hafter := hs.after.run turns
    rw [Nat.zero_add] at hafter
    exact ⟨hafter.next, hafter.fault.2, hs.after.fault_run_of_limit_lt⟩

/-- The last picture that is rendered, with its second pixel of the second row, and the next one,
which is not; a number of more than 32 bits is rendered again. -/
theorem Picture.render_around_limit :
    (∃ pixels, render (160 * 144) 1431655765 = .ok pixels ∧
      ∃ color, pixels[161]? = some color ∧ color.r.toNat = 86 ∧ color.g.toNat = 2 ∧
        color.b.toNat = 255) ∧
    render (160 * 144) 1431655766 = .error (.overflow .multiply) ∧
    (∃ pixels, render (160 * 144) 4294967303 = .ok pixels) ∧
    ∃ s : Backstage Demo.DualCore, Demo.DualCore.Started s ∧
      (s.core1.run 1431655766).fault = none ∧
      (s.core1.run 1431655767).fault = some "attempt to multiply with overflow" := by
  obtain ⟨hlast, -, hturns⟩ := renders_until_number_triples_past_word 1431655765 (160 * 144)
  obtain ⟨-, hnext, -⟩ := renders_until_number_triples_past_word 1431655766 (160 * 144)
  obtain ⟨hlater, -, -⟩ := renders_until_number_triples_past_word 4294967303 (160 * 144)
  obtain ⟨pixels, hpixels, -, hpoint⟩ := hlast (.inr (by decide))
  obtain ⟨color, hcolor, hr, hg, hb, -⟩ := hpoint 161 (by decide)
  obtain ⟨others, hothers, -⟩ := hlater (.inr (by decide))
  let s : Backstage Demo.DualCore :=
    ⟨.initial, { SecondCore.initial with taken := true, entry := some .render }, #[]⟩
  have hs : Demo.DualCore.Started s := ⟨rfl, rfl, rfl, rfl, rfl⟩
  exact ⟨⟨pixels, hpixels, color, hcolor, hr, hg, hb⟩, hnext (by decide) (by decide),
    ⟨others, hothers⟩, s, hs, (hturns s hs 1431655766).2.1 (by decide),
    (hturns s hs 1431655767).2.2 (by decide)⟩

end Handheld
