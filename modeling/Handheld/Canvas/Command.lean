import Handheld.Canvas.Writing

/-!
# Drawing commands

The operations of a canvas as data, so that a drawing is a list of commands. Only a text may stop
half-way.

* `keeps_write`: what single points keep, a text keeps, however it ends.
* `width_exec`, `height_exec`: no command changes the size of the canvas.
-/

namespace Handheld

/-- One operation of a canvas. -/
inductive Command where
  /-- Choose the pen's color. -/
  | setColor (color : Color)
  /-- Choose the pen's blend mode. -/
  | setBlend (blend : Blend)
  /-- Overwrite everything with the pen's color. -/
  | clear
  /-- Draw one point. -/
  | pixel (x y : Int)
  /-- Draw points to the right. -/
  | hline (x y len : Int)
  /-- Draw points downwards. -/
  | vline (x y len : Int)
  /-- Draw a filled rectangle. -/
  | rect (x y w h : Int)
  /-- Draw a text, broken into lines if there is a width. -/
  | text (text : List Char) (x y : Int) (wrap : Option Int)
  /-- Copy a block of colors. -/
  | blit (source : Array Color) (w h x y : Int)
  /-- Draw single points in their own colors. -/
  | plot (dots : List Dot)
  /-- Draw a rectangle in a color of its own. -/
  | fillSolid (area : Rect) (color : Color)
  /-- Draw the points of a rectangle in the given colors. -/
  | fillContiguous (area : Rect) (colors : List Color)
  /-- Draw the whole canvas in a color of its own. -/
  | fillAll (color : Color)

namespace Canvas

/-- Carry out one command. -/
def exec : Command → Step Canvas Unit
  | .setColor color => modify (·.setColor color)
  | .setBlend blend => modify (·.setBlend blend)
  | .clear => modify (·.clear)
  | .pixel x y => modify (·.pixel x y)
  | .hline x y len => modify (·.hline x y len)
  | .vline x y len => modify (·.vline x y len)
  | .rect x y w h => modify (·.rect x y w h)
  | .text text x y wrap => write text x y wrap
  | .blit source w h x y => modify (·.blit source w h x y)
  | .plot dots => modify (·.plot dots)
  | .fillSolid area color => modify (·.fillSolid area color)
  | .fillContiguous area colors => modify (·.fillContiguous area colors)
  | .fillAll color => modify (·.fillAll color)

/-- Carry out commands in order, until one of them stops. -/
def execAll (commands : List Command) : Step Canvas Unit := Step.each exec commands

/-- Drawing single points keeps the width. -/
theorem width_plot (c : Canvas) (dots : List Dot) : (c.plot dots).width = c.width := by
  unfold plot width
  induction dots generalizing c with
  | nil => rfl
  | cons d ds ih =>
    exact (ih { c with frame := c.frame.paint d.x d.y (Pen.apply ⟨d.color, c.pen.blend⟩) }).trans
      (Frame.width_paint ..)

/-- Drawing single points keeps the height. -/
theorem height_plot (c : Canvas) (dots : List Dot) : (c.plot dots).height = c.height := by
  unfold plot height
  induction dots generalizing c with
  | nil => rfl
  | cons d ds ih =>
    exact (ih { c with frame := c.frame.paint d.x d.y (Pen.apply ⟨d.color, c.pen.blend⟩) }).trans
      (Frame.height_paint ..)

variable {P : Canvas → Prop}

/-- What single points keep, the lines of a text keep, however it ends. -/
theorem keeps_drawLines (hplot : ∀ c dots, P c → P (c.plot dots)) (x y : Int) (n : Nat)
    (ls : List Text.Line) : (drawLines x y n ls).Keeps P := by
  have hrun : ∀ (line : Text.Line) (c : Canvas) (x y : Int), P c → P (c.drawRun x y line) := by
    intro line
    induction line with
    | nil => exact fun _ _ _ hc => hc
    | cons character rest ih => exact fun c x y hc => ih _ _ _ (hplot c _ hc)
  induction ls generalizing n with
  | nil => exact Step.keeps_pure ()
  | cons line rest ih =>
    exact Step.keeps_bind (Step.keeps_ofExcept _) fun top =>
      Step.keeps_bind (Step.keeps_modify fun c hc => hrun _ c x top hc) fun _ => ih (n + 1)

theorem keeps_write (hplot : ∀ c dots, P c → P (c.plot dots)) (text : List Char) (x y : Int)
    (wrap : Option Int) : (write text x y wrap).Keeps P :=
  keeps_drawLines hplot x y 0 _

@[simp]
theorem width_rect (c : Canvas) (x y w h : Int) : (c.rect x y w h).width = c.width :=
  Frame.width_updateRect ..

@[simp]
theorem height_rect (c : Canvas) (x y w h : Int) : (c.rect x y w h).height = c.height :=
  Frame.height_updateRect ..

@[simp]
theorem width_blit (c : Canvas) (source : Array Color) (w h x y : Int) :
    (c.blit source w h x y).width = c.width := by
  unfold blit
  split
  · rfl
  · exact Frame.width_updateRect ..

@[simp]
theorem height_blit (c : Canvas) (source : Array Color) (w h x y : Int) :
    (c.blit source w h x y).height = c.height := by
  unfold blit
  split
  · rfl
  · exact Frame.height_updateRect ..

/-- No command changes the width of the canvas, however it ends. -/
theorem width_exec (c : Canvas) (command : Command) :
    ((exec command).start c).2.width = c.width := by
  cases command with
  | setColor | setBlend | clear => rfl
  | hline | vline | rect => exact width_rect ..
  | pixel x y => exact Frame.width_paint ..
  | plot | fillSolid | fillContiguous | fillAll => exact width_plot ..
  | blit source w h x y => exact width_blit ..
  | text text x y wrap =>
    exact keeps_write (P := (·.width = c.width)) (fun d dots hd => (width_plot d dots).trans hd)
      text x y wrap c rfl

/-- No command changes the height of the canvas, however it ends. -/
theorem height_exec (c : Canvas) (command : Command) :
    ((exec command).start c).2.height = c.height := by
  cases command with
  | setColor | setBlend | clear => rfl
  | hline | vline | rect => exact height_rect ..
  | pixel x y => exact Frame.height_paint ..
  | plot | fillSolid | fillContiguous | fillAll => exact height_plot ..
  | blit source w h x y => exact height_blit ..
  | text text x y wrap =>
    exact keeps_write (P := (·.height = c.height)) (fun d dots hd => (height_plot d dots).trans hd)
      text x y wrap c rfl

end Canvas

end Handheld
