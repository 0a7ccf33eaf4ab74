import Handheld.Proofs.Demo.Drawing
import Handheld.Proofs.Sequence

/-!
# Pictures as they are shown

Core 1 takes its turns and core 0 draws, in any order. The two buffers change hands in every turn:
the finished picture goes into the shared place, and what was there, at first nothing at all, comes
back and is filled up for the next picture. So the shared place holds no picture or a complete one,
and its number is the number of turns less one until core 1 stops.

* `Picture.limit`: the number of pictures after which core 1 stops.
* `After.turn_at_limit`: how it stops.
* `After`: what holds after a number of turns, with any draws in between.
* `After.turn`, `After.draw`: a turn and a draw keep it.
* `After.exists_completes`: any number of them keep it, and none of them stops core 0.
* `shows_latest_picture_whole`: what every draw shows.
-/

namespace Handheld

/-! ## Rendering -/

namespace Picture

/-- The number of pictures that can be rendered: three times a picture's number has to fit
32 bits. -/
def limit : Nat := (UInt32.size + 2) / 3

/-- The pixels of a rendered picture, one by one. -/
theorem getElem?_of_render {len : Nat} {number : UInt64} {pixels : Array Color}
    (h : render len number = .ok pixels) {i : Nat} (hi : i < len) :
    pixels[i]? = some (color number i) := by
  unfold render at h
  split at h
  · cases h
  · obtain rfl := Except.ok.inj h
    rw [Array.getElem?_ofFn, dif_pos hi]

theorem phase_eq (number : UInt64) : phase number = number.toNat % UInt32.size :=
  UInt64.toNat_toUInt32 number

/-- The lower half of a picture's number decides whether it can be rendered. -/
theorem exists_render_of_lt_limit (len : Nat) {number : UInt64}
    (h : number.toNat % UInt32.size < limit) : ∃ pixels, render len number = .ok pixels := by
  have hsize : UInt32.size = 4294967296 := rfl
  unfold limit at h
  refine ⟨_, if_neg ?_⟩
  rw [phase_eq]
  omega

theorem render_of_limit_le {len : Nat} {number : UInt64} (hlen : 0 < len)
    (h : limit ≤ number.toNat % UInt32.size) :
    render len number = .error (.overflow .multiply) := by
  have hsize : UInt32.size = 4294967296 := rfl
  unfold limit at h
  refine if_pos ⟨hlen, ?_⟩
  rw [phase_eq]
  omega

/-- What the shared place holds after a number of finished pictures: none before the first, then
the complete last one with its number. -/
structure IsLatest (finished : Nat) (picture : Picture) : Prop where
  blank : finished = 0 → picture.pixels = #[]
  whole : 0 < finished → render size picture.number = .ok picture.pixels ∧
    picture.number.toNat = finished - 1

theorem IsLatest.size_eq {finished : Nat} {picture : Picture} (h : IsLatest finished picture)
    (hpos : 0 < finished) : picture.pixels.size = size :=
  size_render (h.whole hpos).1

theorem isLatest_blank : IsLatest 0 blank := ⟨fun _ => rfl, fun h => absurd h (Nat.lt_irrefl 0)⟩

end Picture

/-- On a free lock a turn renders into the own buffer and exchanges the buffers. -/
theorem Renderer.turn_of_free (r : Renderer) {shared : Mutex Picture}
    (hfree : shared.token = .free) {pixels : Array Color}
    (hrender : Picture.render r.work.size r.next = .ok pixels) :
    r.turn shared = .ok (⟨resized shared.data.pixels, r.next + 1⟩, .new ⟨pixels, r.next⟩) := by
  rw [turn, hrender]
  simp only [Mutex.update_of_free hfree]
  rfl

namespace SecondCore

variable {c : SecondCore}

theorem turn_of_fault (h : c.fault ≠ none) : c.turn = c := by
  obtain ⟨message, hmessage⟩ := Option.ne_none_iff_exists'.1 h
  rw [turn, hmessage]

theorem turn_of_rendered (hfault : c.fault = none) (hentry : c.entry = some .render)
    {renderer : Renderer} {picture : Mutex Picture}
    (h : c.renderer.turn c.picture = .ok (renderer, picture)) :
    c.turn = { c with turns := c.turns + 1, renderer, picture } := by
  rw [turn, hfault, hentry]
  simp only [h]

theorem turn_of_panic (hfault : c.fault = none) (hentry : c.entry = some .render) {p : Panic}
    (h : c.renderer.turn c.picture = .error p) :
    c.turn = { c with turns := c.turns + 1, fault := some p.message } := by
  rw [turn, hfault, hentry]
  simp only [h]

end SecondCore

namespace Demo.DualCore

/-! ## Turns and draws -/

/-- What the two cores do next. -/
inductive Event where
  /-- Core 1 takes a turn. -/
  | turn
  /-- Core 0 draws on a canvas. -/
  | draw (b : Board) (tick : UInt32) (canvas : Canvas)
deriving DecidableEq

/-- Let it happen. -/
def Event.perform : Event → Step (Backstage DualCore) Unit
  | .turn => modify fun s => { s with core1 := s.core1.turn }
  | .draw b tick canvas => (app.draw b tick).on (fun s => ⟨s, canvas⟩) fun _ scene =>
    scene.toBackstage

/-- Core 1 has been started on the pictures and has not had a turn yet, and nothing has been
drawn. -/
structure Started (s : Backstage DualCore) : Prop where
  app : s.app = .initial
  entry : s.core1.entry = some .render
  fault : s.core1.fault = none
  renderer : s.core1.renderer = .initial
  picture : s.core1.picture = .new .blank

/-- The demo starts core 1, if the right to do so is still there. -/
theorem exists_started {b : Board} (hplatform : b.platform.isSome) (hsimulator : b.simulator.isSome)
    (log : Log) (c : Canvas) :
    ∃ scene, (app.init b).start ⟨⟨.initial, .initial, log⟩, c⟩ = (.ok (), scene) ∧
      Started scene.toBackstage := by
  obtain ⟨platform, hb⟩ := Option.isSome_iff_exists.1 hplatform
  have hlaunch : SecondCore.launchWithRight b .render =
      modify fun c => if b.simulator.isSome then c.start .render else c := by
    rw [SecondCore.launchWithRight, hb]
  simp only [app, hlaunch, hsimulator]
  exact ⟨_, rfl, rfl, rfl, rfl, rfl, rfl⟩

/-- What holds after a number of turns. Core 1 stops in the turn after the last picture that it can
render. -/
structure After (turns : Nat) (s : Backstage DualCore) : Prop where
  entry : s.core1.entry = some .render
  fault : s.core1.fault = none ↔ turns ≤ Picture.limit
  next : s.core1.renderer.next.toNat = min turns Picture.limit
  work : s.core1.renderer.work.size = Picture.size
  free : s.core1.picture.token = .free
  latest : Picture.IsLatest (min turns Picture.limit) s.core1.picture.data
  seen : ∀ n, s.app.lastSeen = some n → n.toNat < min turns Picture.limit

variable {turns : Nat} {s s' : Backstage DualCore}

theorem Started.after (h : Started s) : After 0 s where
  entry := h.entry
  fault := by simp [h.fault]
  next := by rw [h.renderer, Nat.zero_min]; rfl
  work := by rw [h.renderer]; exact Array.size_replicate
  free := by rw [h.picture]; rfl
  latest := by rw [h.picture, Nat.zero_min]; exact Picture.isLatest_blank
  seen n hn := by rw [h.app] at hn; cases hn

/-- A turn of a core that has stopped, or stops in it, leaves everything else as it is. -/
theorem After.of_stopped (h : After turns s) (hle : Picture.limit ≤ turns) {core1 : SecondCore}
    (hentry : core1.entry = s.core1.entry) (hrenderer : core1.renderer = s.core1.renderer)
    (hpicture : core1.picture = s.core1.picture) (hfault : core1.fault ≠ none) :
    After (turns + 1) { s with core1 } := by
  have hmin : min (turns + 1) Picture.limit = min turns Picture.limit := by omega
  refine ⟨hentry.trans h.entry, ⟨fun hnone => absurd hnone hfault, fun h' => absurd h' (by omega)⟩,
    ?_, ?_, ?_, ?_, ?_⟩
  · rw [hmin, hrenderer, h.next]
  · rw [hrenderer, h.work]
  · rw [hpicture, h.free]
  · rw [hmin, hpicture]
    exact h.latest
  · rw [hmin]
    exact h.seen

/-- A turn below the limit finishes the next picture. -/
theorem After.of_lt (h : After turns s) (hlt : turns < Picture.limit) :
    After (turns + 1) { s with core1 := s.core1.turn } := by
  have hbefore : min turns Picture.limit = turns := Nat.min_eq_left (Nat.le_of_lt hlt)
  have hafter : min (turns + 1) Picture.limit = turns + 1 := Nat.min_eq_left hlt
  have hrunning : s.core1.fault = none := h.fault.2 (Nat.le_of_lt hlt)
  have hnext : s.core1.renderer.next.toNat = turns := h.next.trans hbefore
  obtain ⟨pixels, hrender⟩ := Picture.exists_render_of_lt_limit s.core1.renderer.work.size
    (Nat.lt_of_le_of_lt (Nat.mod_le ..) (hnext ▸ hlt))
  have hturn := SecondCore.turn_of_rendered hrunning h.entry
    (s.core1.renderer.turn_of_free h.free hrender)
  -- The buffer that comes back may be the empty one; filled up, it has the size of a picture again.
  have hwork := Renderer.size_resized s.core1.picture.data.pixels
  rw [hturn]
  refine ⟨h.entry, ⟨fun _ => hlt, fun _ => hrunning⟩, ?_, hwork, rfl, ?_, ?_⟩
  all_goals rw [hafter]
  -- The number of the next picture is far from the end of its 64 bits.
  · have hlimit : Picture.limit = 1431655766 := rfl
    have hone : (1 : UInt64).toNat = 1 := rfl
    simp only [UInt64.toNat_add, hnext, hone]
    omega
  · refine ⟨fun hzero => absurd hzero (Nat.succ_ne_zero turns), fun _ => ⟨?_, hnext⟩⟩
    rw [← h.work]
    exact hrender
  -- The application has not looked since.
  · exact fun n hn => Nat.lt_succ_of_lt (hbefore ▸ h.seen n hn)

/-- After as many pictures as it can render, core 1 stops in its next turn. -/
theorem After.turn_at_limit (h : After Picture.limit s) :
    s.core1.turn = { s.core1 with
      turns := s.core1.turns + 1
      fault := some (Panic.overflow .multiply).message } := by
  have hnext : s.core1.renderer.next.toNat = Picture.limit := h.next.trans (Nat.min_self _)
  have hoverflow : Picture.limit ≤ s.core1.renderer.next.toNat % UInt32.size := by
    rw [hnext]
    exact Nat.le_of_eq (Nat.mod_eq_of_lt (by decide)).symm
  have hpanic : s.core1.renderer.turn s.core1.picture = .error (.overflow .multiply) := by
    rw [Renderer.turn, h.work, Picture.render_of_limit_le (by decide) hoverflow]
  exact SecondCore.turn_of_panic (h.fault.2 (Nat.le_refl _)) h.entry hpanic

/-- A turn finishes the next picture, or core 1 stops in it or has stopped before. -/
theorem After.turn (h : After turns s) : After (turns + 1) { s with core1 := s.core1.turn } := by
  obtain hlt | rfl | hgt := Nat.lt_trichotomy turns Picture.limit
  · exact h.of_lt hlt
  -- Rendering comes first in a turn, so the stop finds both buffers as they were.
  · rw [h.turn_at_limit]
    exact h.of_stopped (Nat.le_refl _) rfl rfl rfl (Option.some_ne_none _)
  · have hfault : s.core1.fault ≠ none := fun hnone => absurd (h.fault.1 hnone) (by omega)
    rw [SecondCore.turn_of_fault hfault]
    exact h.of_stopped (Nat.le_of_lt hgt) rfl rfl rfl hfault

theorem After.lastSeen_eq_none (h : After turns s) (hzero : min turns Picture.limit = 0) :
    s.app.lastSeen = none :=
  Option.eq_none_iff_forall_ne_some.2 fun n hn => absurd (h.seen n hn) (by omega)

/-- The number that a draw shows is the latest one. -/
theorem After.lastSeen_drawn (h : After turns s) (c : Canvas) {n : UInt64}
    (hn : (drawn s c).app.lastSeen = some n) : n.toNat + 1 = min turns Picture.limit := by
  obtain hzero | hpos := Nat.eq_zero_or_pos (min turns Picture.limit)
  · rw [(shows_drawn_of_blank (h.latest.blank hzero) (h.lastSeen_eq_none hzero) c).1] at hn
    cases hn
  · rw [(shows_drawn_of_whole (h.latest.size_eq hpos) c).1] at hn
    obtain rfl := Option.some.inj hn
    rw [(h.latest.whole hpos).2]
    omega

/-- A draw leaves the buffers alone and remembers the number that it shows. -/
theorem After.draw (h : After turns s) (c : Canvas) : After turns (drawn s c).toBackstage :=
  ⟨h.entry, h.fault, h.next, h.work, rfl, h.latest, fun _ hn =>
    Nat.lt_of_succ_le (Nat.le_of_eq (h.lastSeen_drawn c hn))⟩

/-- The number seen in the first state is still seen in the second, or a later one. -/
def NoOlder (s s' : Backstage DualCore) : Prop :=
  ∀ n, s.app.lastSeen = some n → ∃ m, s'.app.lastSeen = some m ∧ n ≤ m

theorem NoOlder.refl (s : Backstage DualCore) : NoOlder s s := fun n hn => ⟨n, hn, UInt64.le_refl n⟩

theorem NoOlder.trans {m : Backstage DualCore} (h : NoOlder s m) (h' : NoOlder m s') :
    NoOlder s s' := by
  intro n hn
  obtain ⟨l, hl, hnl⟩ := h n hn
  obtain ⟨m, hm, hlm⟩ := h' l hl
  exact ⟨m, hm, UInt64.le_trans hnl hlm⟩

theorem After.noOlder_drawn (h : After turns s) (c : Canvas) :
    NoOlder s (drawn s c).toBackstage := by
  intro n hn
  -- A number has been seen, so there is a picture, and its number is the greatest so far.
  have hlt := h.seen n hn
  have hwhole := shows_drawn_of_whole (h.latest.size_eq (by omega)) c
  refine ⟨_, hwhole.1, UInt64.le_iff_toNat_le.2 ?_⟩
  have := h.lastSeen_drawn c hwhole.1
  omega

/-- Neither core stops the other, and each finds what the other one left. -/
theorem After.perform (h : After turns s) (event : Event) :
    ∃ s', event.perform.start s = (.ok (), s') ∧ After (turns + [event].count .turn) s' ∧
      NoOlder s s' := by
  cases event with
  | turn => exact ⟨_, rfl, h.turn, fun n hn => ⟨n, hn, UInt64.le_refl n⟩⟩
  | draw b tick c =>
    refine ⟨_, ?_, h.draw c, h.noOlder_drawn c⟩
    rw [Event.perform, Step.start_on, start_draw_of_free h.free]

/-- Turns and draws go on for ever, in any order. -/
theorem After.exists_completes (h : After turns s) (events : List Event) :
    ∃ s', Step.Completes Event.perform events s s' ∧ After (turns + events.count .turn) s' ∧
      NoOlder s s' := by
  -- By induction on the events, for any number of turns taken before.
  induction events generalizing s turns with
  | nil => exact ⟨s, Step.completes_nil_iff.2 rfl, h, .refl s⟩
  | cons event rest ih =>
    obtain ⟨m, hm, hafter, hle⟩ := h.perform event
    obtain ⟨s', hs', hafter', hle'⟩ := ih hafter
    refine ⟨s', Step.completes_cons_iff.2 ⟨m, hm, hs'⟩, ?_, hle.trans hle'⟩
    rwa [Nat.add_assoc, ← List.count_append] at hafter'

/-- However turns of core 1 and draws of core 0 follow one another, none of them stops core 0, and
core 1 does not stop before it has rendered as many pictures as it can. As long as it has not
stopped, the shared place holds nothing before the first turn and then the complete picture of the
last turn with its number, and core 1's own buffer has the size of a picture again. Every draw then
shows all of that picture that the canvas has room for, in the middle at the top, and its number
below, or no picture and that there is none yet. The number shown never decreases. -/
theorem shows_latest_picture_whole (hs : Started s) (events : List Event) :
    ∃ s', Step.Completes Event.perform events s s' ∧
      (s'.core1.fault = none ↔ events.count .turn ≤ Picture.limit) ∧
      (s'.core1.fault = none →
        let k := events.count .turn
        let picture := s'.core1.picture.data
        s'.core1.renderer.work.size = 160 * 144 ∧
        (k = 0 → picture.pixels = #[]) ∧
        (0 < k → picture.pixels.size = 160 * 144 ∧
          Picture.render (160 * 144) picture.number = .ok picture.pixels ∧
          picture.number.toNat = k - 1) ∧
        (∀ b tick canvas, ∃ scene, (app.draw b tick).start ⟨s', canvas⟩ = (.ok (), scene) ∧
          scene.canvas.width = canvas.width ∧ scene.canvas.height = canvas.height ∧
          (k = 0 → scene.app.lastSeen = none ∧
            Shows none (lineInk "waiting for core 1") scene.canvas) ∧
          (0 < k → scene.app.lastSeen = some picture.number ∧
            Shows (some picture) (lineInk ("core 1 picture #" ++ toString (k - 1)))
              scene.canvas)) ∧
        ∀ earlier m, earlier <+: events → Step.Completes Event.perform earlier s m →
          NoOlder m s') := by
  obtain ⟨s', hs', hafter, -⟩ := hs.after.exists_completes events
  rw [Nat.zero_add] at hafter
  refine ⟨s', hs', hafter.fault, fun hfault => ?_⟩
  -- As long as core 1 has not stopped, each of its turns finished a picture.
  have hmin : min (events.count .turn) Picture.limit = events.count .turn :=
    Nat.min_eq_left (hafter.fault.1 hfault)
  have hlatest := hmin ▸ hafter.latest
  refine ⟨hafter.work, hlatest.blank,
    fun hpos => ⟨hlatest.size_eq hpos, hlatest.whole hpos⟩, fun b tick c => ?_, ?_⟩
  · refine ⟨drawn s' c, start_draw_of_free hafter.free b tick c, ?_, ?_, fun hzero => ?_,
      fun hpos => ?_⟩
    · exact width_drawn s' c
    · exact height_drawn s' c
    · exact shows_drawn_of_blank (hlatest.blank hzero)
        (hafter.lastSeen_eq_none (hmin.trans hzero)) c
    · rw [← (hlatest.whole hpos).2]
      exact shows_drawn_of_whole (hlatest.size_eq hpos) c
  -- The rest of the events leads from the earlier state to the last one.
  · rintro earlier m ⟨later, rfl⟩ hm
    obtain ⟨m', hm', hmid, -⟩ := hs.after.exists_completes earlier
    obtain rfl := hm.unique hm'
    obtain ⟨s'', hs'', -, hle⟩ := hmid.exists_completes later
    obtain rfl := hs'.unique (Step.completes_append_iff.2 ⟨_, hm, hs''⟩)
    exact hle

/-- After two turns and a draw in between, the top left pixel of picture #1 on a canvas with 20
columns to spare on either side. -/
theorem shows_second_picture :
    let s : Backstage DualCore :=
      ⟨.initial, { SecondCore.initial with taken := true, entry := some .render }, #[]⟩
    let c : Canvas := ⟨.filled 200 160 .white, .initial⟩
    Started s ∧ ∃ s' scene,
      Step.Completes Event.perform [.turn, .draw default 0 c, .turn] s s' ∧
        s'.core1.fault = none ∧ (app.draw default 1).start ⟨s', c⟩ = (.ok (), scene) ∧
        scene.app.lastSeen = some 1 ∧ scene.canvas.get? 20 0 = some (.rgb 1 0 3) := by
  intro s c
  have hs : Started s := ⟨rfl, rfl, rfl, rfl, rfl⟩
  have hcount : [Event.turn, .draw default 0 c, .turn].count .turn = 2 := by decide
  obtain ⟨s', hs', hgoing, hshows⟩ :=
    shows_latest_picture_whole hs [.turn, .draw default 0 c, .turn]
  rw [hcount] at hgoing hshows
  have hfault : s'.core1.fault = none := hgoing.2 (by decide)
  obtain ⟨-, -, hwhole, hdraw, -⟩ := hshows hfault
  obtain ⟨-, hrender, hnumber⟩ := hwhole (by decide)
  obtain ⟨scene, hscene, hwidth, hheight, -, hpicture⟩ := hdraw default 1 c
  obtain ⟨hseen, hpixels⟩ := hpicture (by decide)
  have hone : s'.core1.picture.data.number = 1 := UInt64.toNat_inj.1 hnumber
  have hleft : left scene.canvas.width = 20 := by
    rw [hwidth]
    decide
  have hin : scene.canvas.frame.Contains (left scene.canvas.width + (0 : Nat)) (0 : Nat) := by
    rw [Frame.contains_iff_of_size_eq hwidth hheight, hleft]
    decide
  have hpixel := hpixels.pixel _ rfl 0 0 (by decide) (by decide) hin
  rw [hleft, Picture.getElem?_of_render hrender (by decide), hone] at hpixel
  exact ⟨hs, s', scene, hs', hfault, hscene, hone ▸ hseen, hpixel.trans (by decide)⟩

end Demo.DualCore

end Handheld
