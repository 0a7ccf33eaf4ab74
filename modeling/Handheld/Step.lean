import Handheld.Panic

/-!
# Computations that may stop

A `Step` is a computation on a state that may stop half-way, with a panic or in a wait without end;
what it did to the state until then stays done, also when a panic is caught. `Step.start` is its
view: how it ends and what it leaves. The lemmas `start_…` say what `start` is for each way of
building a step, and the lemmas `keeps_…` what a step leaves alone.
-/

namespace Handheld

/-- Why a computation does not go on. -/
inductive Stop where
  /-- It stopped with a panic. -/
  | panic (cause : Panic)
  /-- It waits for something that does not come. Nobody learns of it. -/
  | endless
deriving DecidableEq, Repr

/-- A computation on a state that may stop and keeps what it did until then. -/
abbrev Step (σ α : Type) := ExceptT Stop (StateM σ) α

namespace Step

variable {ι σ τ α β : Type}

/-- Start a computation in a state: how it ends, and the state that it leaves. -/
def start (step : Step σ α) (s : σ) : Except Stop α × σ := step.run.run s

/-- The computation that a function on states describes. -/
def ofFunction (f : σ → Except Stop α × σ) : Step σ α := ExceptT.mk fun s => f s

/-- Run a computation on a part of a larger state. -/
def on (part : τ → σ) (put : τ → σ → τ) (step : Step σ α) : Step τ α :=
  ofFunction fun t => ((step.start (part t)).1, put t (step.start (part t)).2)

/-- How a computation ends for one who catches its panics. -/
def caughtOutcome : Except Stop α → Except Stop (Except Panic α)
  | .ok a => .ok (.ok a)
  | .error (.panic p) => .ok (.error p)
  | .error .endless => .error .endless

/-- Run a computation and turn a panic into a value; what was done until then stays done. -/
def caught (step : Step σ α) : Step σ (Except Panic α) :=
  ofFunction fun s => (caughtOutcome (step.start s).1, (step.start s).2)

/-- Stop with a panic if a check fails. -/
def ofExcept (e : Except Panic α) : Step σ α := ofFunction fun s => (e.mapError Stop.panic, s)

/-- Do one step after the other. -/
def each (act : ι → Step σ Unit) : List ι → Step σ Unit
  | [] => pure ()
  | i :: rest => do
    act i
    each act rest

@[simp]
theorem start_ofFunction (f : σ → Except Stop α × σ) (s : σ) : (ofFunction f).start s = f s :=
  rfl

@[simp]
theorem start_pure (a : α) (s : σ) : (pure a : Step σ α).start s = (.ok a, s) := rfl

@[simp]
theorem start_throw (stop : Stop) (s : σ) :
    (throw stop : Step σ α).start s = (.error stop, s) := rfl

@[simp]
theorem start_get (s : σ) : (get : Step σ σ).start s = (.ok s, s) := rfl

@[simp]
theorem start_set (s' s : σ) : (set s' : Step σ Unit).start s = (.ok (), s') := rfl

@[simp]
theorem start_modify (f : σ → σ) (s : σ) : (modify f : Step σ Unit).start s = (.ok (), f s) := rfl

@[simp]
theorem start_on (part : τ → σ) (put : τ → σ → τ) (step : Step σ α) (t : τ) :
    (step.on part put).start t =
      ((step.start (part t)).1, put t (step.start (part t)).2) := rfl

@[simp]
theorem start_caught (step : Step σ α) (s : σ) :
    step.caught.start s = (caughtOutcome (step.start s).1, (step.start s).2) := rfl

@[simp]
theorem caughtOutcome_ok (a : α) : caughtOutcome (.ok a : Except Stop α) = .ok (.ok a) := rfl

@[simp]
theorem caughtOutcome_panic (p : Panic) :
    caughtOutcome (.error (.panic p) : Except Stop α) = .ok (.error p) := rfl

@[simp]
theorem caughtOutcome_endless :
    caughtOutcome (.error .endless : Except Stop α) = .error .endless := rfl

@[simp]
theorem start_ofExcept_ok (a : α) (s : σ) :
    (ofExcept (.ok a) : Step σ α).start s = (.ok a, s) := rfl

@[simp]
theorem start_ofExcept_error (p : Panic) (s : σ) :
    (ofExcept (.error p) : Step σ α).start s = (.error (.panic p), s) := rfl

/-- A sequence stops where its first part stops and else goes on from the state left there. -/
theorem start_bind (step : Step σ α) (next : α → Step σ β) (s : σ) :
    (bind (m := Step σ) step next).start s =
      match step.start s with
      | (.ok a, s') => (next a).start s'
      | (.error stop, s') => (.error stop, s') := by
  unfold start
  rw [ExceptT.run_bind, StateT.run_bind]
  simp only [bind]
  rcases StateT.run step.run s with ⟨r, s'⟩
  cases r <;> rfl

/-- A sequence goes on from where its first part ends. -/
theorem start_bind_of_ok {step : Step σ α} {s s' : σ} {a : α} (h : step.start s = (.ok a, s'))
    (next : α → Step σ β) : (bind (m := Step σ) step next).start s = (next a).start s' := by
  rw [start_bind, h]

/-- A sequence stops where its first part does. -/
theorem start_bind_of_error {step : Step σ α} {s s' : σ} {stop : Stop}
    (h : step.start s = (.error stop, s')) (next : α → Step σ β) :
    (bind (m := Step σ) step next).start s = (.error stop, s') := by
  rw [start_bind, h]

/-- A sequence stops if its first part does. -/
theorem fst_start_bind_of_error {step : Step σ α} {s : σ} {stop : Stop}
    (h : (step.start s).1 = .error stop) (next : α → Step σ β) :
    ((bind (m := Step σ) step next).start s).1 = .error stop := by
  have hstart : step.start s = (.error stop, (step.start s).2) := Prod.ext h rfl
  rw [start_bind_of_error hstart]

/-- The property holds after the computation, however it ends, if it held before. -/
def Keeps (P : σ → Prop) (step : Step σ α) : Prop := ∀ s, P s → P (step.start s).2

variable {P : σ → Prop}

theorem keeps_pure (a : α) : Keeps P (pure a : Step σ α) := fun _ hs => hs

theorem keeps_throw (stop : Stop) : Keeps P (throw stop : Step σ α) := fun _ hs => hs

theorem keeps_get : Keeps P (get : Step σ σ) := fun _ hs => hs

theorem keeps_ofExcept (e : Except Panic α) : Keeps P (ofExcept e) := fun _ hs => hs

theorem keeps_modify {f : σ → σ} (hf : ∀ s, P s → P (f s)) : Keeps P (modify f : Step σ Unit) := hf

theorem keeps_bind {step : Step σ α} {next : α → Step σ β} (hstep : Keeps P step)
    (hnext : ∀ a, Keeps P (next a)) : Keeps P (bind (m := Step σ) step next) := by
  intro s hs
  have hm := hstep s hs
  rw [start_bind]
  rcases hstart : step.start s with ⟨_ | a, m⟩
  · rw [hstart] at hm
    exact hm
  · rw [hstart] at hm
    exact hnext a m hm

/-- What every step keeps, all of them keep. -/
theorem keeps_each {act : ι → Step σ Unit} {steps : List ι} (h : ∀ i ∈ steps, Keeps P (act i)) :
    Keeps P (each act steps) := by
  induction steps with
  | nil => exact keeps_pure ()
  | cons i rest ih =>
    exact keeps_bind (h i List.mem_cons_self) fun _ =>
      ih fun j hj => h j (List.mem_cons_of_mem _ hj)

end Step

end Handheld
