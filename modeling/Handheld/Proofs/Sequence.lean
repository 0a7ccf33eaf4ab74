import Handheld.Step

/-!
# Sequences of steps

A list of things to do, each of which may stop. A sequence completes, or it stops at the first step
that does, and then nothing of what would come later happens.

* `completes_append_iff`: a sequence completes part by part.
* `completes_or_stops`: the two ways in which a sequence can end.
* `start_each_of_stop`: a stop ends the sequence in the state that the stopped step leaves.
-/

namespace Handheld.Step

variable {ι σ : Type}

/-- Steps that end alike in every state are the same step. -/
theorem eq_of_start_eq {α : Type} {step step' : Step σ α}
    (h : ∀ s, step.start s = step'.start s) : step = step' :=
  funext h

theorem each_cons (act : ι → Step σ Unit) (i : ι) (rest : List ι) :
    each act (i :: rest) = act i >>= fun _ => each act rest := rfl

theorem each_singleton (act : ι → Step σ Unit) (i : ι) : each act [i] = act i :=
  bind_pure_unit

/-- A sequence is done part by part. -/
theorem each_append (act : ι → Step σ Unit) (first second : List ι) :
    each act (first ++ second) = each act first >>= fun _ => each act second := by
  induction first with
  | nil => exact (pure_bind () fun _ => each act second).symm
  | cons i rest ih => rw [List.cons_append, each, each, ih, bind_assoc]

/-- The sequence does not stop, and leads from one state to the other. -/
def Completes (act : ι → Step σ Unit) (steps : List ι) (s s' : σ) : Prop :=
  (each act steps).start s = (.ok (), s')

variable {act : ι → Step σ Unit} {s s' : σ}

theorem start_each_cons (i : ι) (rest : List ι) (s : σ) :
    (each act (i :: rest)).start s =
      match (act i).start s with
      | (.ok _, s') => (each act rest).start s'
      | (.error stop, s') => (.error stop, s') := by
  rw [each, start_bind]
  rcases (act i).start s with ⟨_ | _, _⟩ <;> rfl

@[simp]
theorem completes_nil_iff : Completes act [] s s' ↔ s' = s := by
  unfold Completes each
  rw [start_pure, Prod.mk.injEq]
  exact ⟨fun h => h.2.symm, fun h => ⟨rfl, h.symm⟩⟩

/-- A sequence completes if its first step does and then the others do. -/
theorem completes_cons_iff {i : ι} {rest : List ι} :
    Completes act (i :: rest) s s' ↔
      ∃ m, (act i).start s = (.ok (), m) ∧ Completes act rest m s' := by
  unfold Completes
  rw [start_each_cons]
  rcases (act i).start s with ⟨_ | _, m⟩ <;> simp

/-- A single step completes if it does not stop. -/
theorem completes_singleton_iff {i : ι} :
    Completes act [i] s s' ↔ (act i).start s = (.ok (), s') := by
  rw [completes_cons_iff]
  constructor
  · rintro ⟨m, hi, hm⟩
    rw [hi, completes_nil_iff.1 hm]
  · exact fun h => ⟨s', h, completes_nil_iff.2 rfl⟩

/-- A sequence completes part by part. -/
theorem completes_append_iff {first second : List ι} :
    Completes act (first ++ second) s s' ↔
      ∃ m, Completes act first s m ∧ Completes act second m s' := by
  induction first generalizing s with
  | nil => simp
  | cons i rest ih =>
    simp only [List.cons_append, completes_cons_iff, ih]
    constructor
    · rintro ⟨m, hi, n, hrest, hsecond⟩
      exact ⟨n, ⟨m, hi, hrest⟩, hsecond⟩
    · rintro ⟨n, ⟨m, hi, hrest⟩, hsecond⟩
      exact ⟨m, hi, n, hrest, hsecond⟩

/-- A sequence that does not stop completes, in the state that it leaves. -/
theorem completes_of_ok {steps : List ι} (h : ((each act steps).start s).1 = .ok ()) :
    Completes act steps s ((each act steps).start s).2 :=
  Prod.ext h rfl

/-- A sequence completes in one state only. -/
theorem Completes.unique {steps : List ι} {s'' : σ} (h : Completes act steps s s')
    (h' : Completes act steps s s'') : s'' = s' :=
  (Prod.mk.inj (h'.symm.trans h)).2

/-- A stop ends the sequence in the state that the stopped step leaves. -/
theorem start_each_of_stop {done rest : List ι} {i : ι} {m : σ} {stop : Stop}
    (hdone : Completes act done s m) (hstop : (act i).start m = (.error stop, s')) :
    (each act (done ++ i :: rest)).start s = (.error stop, s') := by
  induction done generalizing s with
  | nil =>
    obtain rfl := completes_nil_iff.1 hdone
    rw [List.nil_append, start_each_cons, hstop]
  | cons j done ih =>
    obtain ⟨n, hj, hn⟩ := completes_cons_iff.1 hdone
    rw [List.cons_append, start_each_cons, hj]
    exact ih hn

/-- A sequence completes, or one of its steps stops after all those before it completed. -/
theorem completes_or_stops (act : ι → Step σ Unit) (steps : List ι) (s : σ) :
    (∃ s', Completes act steps s s') ∨
      ∃ done i rest m stop s', steps = done ++ i :: rest ∧ Completes act done s m ∧
        (act i).start m = (.error stop, s') := by
  induction steps generalizing s with
  | nil => exact .inl ⟨s, completes_nil_iff.2 rfl⟩
  | cons i rest ih =>
    rcases hi : (act i).start s with ⟨stop | ⟨⟩, m⟩
    · exact .inr ⟨[], i, rest, s, stop, m, rfl, completes_nil_iff.2 rfl, hi⟩
    · rcases ih m with ⟨s', hs'⟩ | ⟨done, j, later, n, stop, s', rfl, hdone, hj⟩
      · exact .inl ⟨s', completes_cons_iff.2 ⟨m, hi, hs'⟩⟩
      · exact .inr ⟨i :: done, j, later, n, stop, s', rfl, completes_cons_iff.2 ⟨m, hi, hdone⟩, hj⟩

/-- What every step keeps, a completed sequence keeps. -/
theorem Completes.invariant {steps : List ι} {P : σ → Prop} (h : Completes act steps s s')
    (hstep : ∀ i ∈ steps, ∀ m m', P m → (act i).start m = (.ok (), m') → P m') (hs : P s) :
    P s' := by
  induction steps generalizing s with
  | nil => rwa [completes_nil_iff.1 h]
  | cons i rest ih =>
    obtain ⟨m, hi, hm⟩ := completes_cons_iff.1 h
    exact ih hm (fun j hj => hstep j (List.mem_cons_of_mem _ hj))
      (hstep i List.mem_cons_self s m hs hi)

end Handheld.Step
