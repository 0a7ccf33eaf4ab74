import Handheld.Lock.Contention
import Mathlib.Algebra.Order.BigOperators.Group.Finset
import Mathlib.Data.Fintype.Basic
import Mathlib.Data.List.Nodup

/-!
# Updates under a lock

Cores change a shared value round by round: take the lock, read, write back, release. The steps of
different cores interleave in any order.

* `serial_step`, `serial_run`: at most one core is inside, and what it has read is still the value.
* `exists_run_to_end`: from every state that a schedule leads to, all rounds can be finished.
* `no_lost_update`: the value is what the finished rounds give one after the other.
-/

namespace Handheld

variable {α : Type}

/-- The rounds that a phase has begun and not finished. -/
def Phase.begun : Phase α → Nat
  | .outside => 0
  | .entered | .loaded _ | .stored => 1

/-- The steps that a phase is away from the end of its round. -/
def Phase.stepsLeft : Phase α → Nat
  | .outside => 0
  | .entered => 3
  | .loaded _ => 2
  | .stored => 1

namespace Contest

/-- What a round of the worker at a position does to the value. -/
def changeOf (workers : List (Worker α)) (i : Nat) : α → α :=
  match workers[i]? with
  | some w => w.change
  | none => id

/-- The value after rounds of the workers at the given positions, one after the other. -/
def applied (workers : List (Worker α)) (value : α) (rounds : List Nat) : α :=
  rounds.foldl (fun v i => changeOf workers i v) value

theorem applied_append_singleton (workers : List (Worker α)) (value : α) (rounds : List Nat)
    (i : Nat) :
    applied workers value (rounds ++ [i]) = changeOf workers i (applied workers value rounds) := by
  simp [applied]

/-- The contest with the worker at a position replaced. -/
def put (s : Contest α) (i : Nat) (w : Worker α) : Contest α :=
  { s with workers := s.workers.set i w }

theorem getElem?_put {s : Contest α} {i : Nat} {w : Worker α} (h : s.workers[i]? = some w)
    (w' : Worker α) (j : Nat) :
    (s.put i w').workers[j]? = if j = i then some w' else s.workers[j]? := by
  obtain ⟨hi, -⟩ := List.getElem?_eq_some_iff.1 h
  by_cases hj : j = i
  · subst hj
    simp [put, hi]
  · have hj' : i ≠ j := fun h => hj h.symm
    simp [put, hj, hj']

/-! ## What a step does, phase by phase -/

section Steps

variable {s : Contest α} {i : Nat} {w : Worker α}

theorem step_of_none (h : s.workers[i]? = none) : s.step i = .ok s := by
  simp [step, h]

theorem step_of_no_rounds (h : s.workers[i]? = some w) (hphase : w.phase = .outside)
    (hrounds : w.rounds = 0) : s.step i = .ok s := by
  simp [step, h, hphase, hrounds]

/-- On a free lock a worker that has a round left begins it. -/
theorem step_of_free (h : s.workers[i]? = some w) (hphase : w.phase = .outside)
    (hrounds : w.rounds ≠ 0) (hfree : s.token = .free) :
    s.step i = .ok { s.put i { w with phase := .entered } with
      token := .heldBy w.core
      order := i :: s.order } := by
  simp [step, h, hphase, hrounds, hfree, Token.enter, Token.free, put]

/-- A worker that finds the lock in other hands changes nothing. -/
theorem step_of_held (h : s.workers[i]? = some w) (hphase : w.phase = .outside)
    {core : CoreId} (hheld : s.token = .heldBy core) (hcore : core ≠ w.core) :
    s.step i = .ok s := by
  by_cases hrounds : w.rounds = 0
  · exact step_of_no_rounds h hphase hrounds
  · simp [step, h, hphase, hrounds, hheld, Token.enter, Token.heldBy, hcore]

theorem step_of_entered (h : s.workers[i]? = some w) (hphase : w.phase = .entered) :
    s.step i = .ok (s.put i { w with phase := .loaded s.value }) := by
  simp [step, h, hphase, put]

theorem step_of_loaded {v : α} (h : s.workers[i]? = some w) (hphase : w.phase = .loaded v) :
    s.step i = .ok { s.put i { w with phase := .stored } with value := w.change v } := by
  simp [step, h, hphase, put]

/-- The owner of the lock ends its round. -/
theorem step_of_stored (h : s.workers[i]? = some w) (hphase : w.phase = .stored)
    (hheld : s.token = .heldBy w.core) :
    s.step i = .ok { s.put i { w with phase := .outside, rounds := w.rounds - 1 } with
      token := .free } := by
  simp [step, h, hphase, hheld, Token.exit, Token.heldBy, put]

end Steps

/-! ## The invariant -/

/-- The workers are still those of the start, and each has begun as many rounds as it has taken the
lock. -/
structure Recorded (workers : List (Worker α)) (s : Contest α) : Prop where
  /-- No worker has come or gone. -/
  length_eq : s.workers.length = workers.length
  /-- A worker keeps its number and its update, and its rounds are accounted for. -/
  worker : ∀ (i : Nat) (w : Worker α), s.workers[i]? = some w → ∃ w₀, workers[i]? = some w₀ ∧
    w.core = w₀.core ∧ w.change = w₀.change ∧
    w.rounds + s.order.count i = w₀.rounds + w.phase.begun

/-- Nobody is inside. -/
structure Vacant (workers : List (Worker α)) (value : α) (s : Contest α) : Prop where
  /-- The lock is free. -/
  token_eq : s.token = .free
  /-- Every worker is between rounds. -/
  outside : ∀ (i : Nat) (w : Worker α), s.workers[i]? = some w → w.phase = .outside
  /-- Every round that took the lock has changed the value. -/
  value_eq : s.value = applied workers value s.order.reverse

/-- One worker is inside, after the rounds of `earlier`, the latest first. -/
structure Occupied (workers : List (Worker α)) (value : α) (s : Contest α) (i : Nat)
    (w : Worker α) (earlier : List Nat) : Prop where
  /-- The worker inside. -/
  worker : s.workers[i]? = some w
  /-- It has the lock. -/
  token_eq : s.token = .heldBy w.core
  /-- Every other worker is between rounds. -/
  others : ∀ (j : Nat) (w' : Worker α), s.workers[j]? = some w' → j ≠ i → w'.phase = .outside
  /-- Its round is not over. -/
  rounds_ne : w.rounds ≠ 0
  /-- It was the last to take the lock. -/
  order_eq : s.order = i :: earlier
  /-- The value lacks the worker's own update until that is written, and what it has read is the
  value. -/
  value_eq : match w.phase with
    | .outside => False
    | .entered => s.value = applied workers value earlier.reverse
    | .loaded v => s.value = applied workers value earlier.reverse ∧ v = s.value
    | .stored => s.value = applied workers value s.order.reverse

/-- The state of a contest in which every round has the lock to itself. -/
structure Serial (workers : List (Worker α)) (value : α) (s : Contest α) : Prop where
  /-- The workers and their rounds are accounted for. -/
  recorded : Recorded workers s
  /-- At most one worker is inside. -/
  vacant_or_occupied :
    Vacant workers value s ∨ ∃ i w earlier, Occupied workers value s i w earlier

variable {workers : List (Worker α)} {value : α} {s : Contest α} {i : Nat} {w : Worker α}

/-- New workers at a free lock. -/
theorem serial_start (hnew : ∀ w ∈ workers, w.phase = .outside) (value : α) :
    Serial workers value (start value workers) where
  recorded := by
    refine ⟨rfl, fun i w h => ⟨w, h, rfl, rfl, ?_⟩⟩
    rw [hnew w (List.mem_of_getElem? h)]
    rfl
  vacant_or_occupied :=
    .inl ⟨rfl, fun i w h => hnew w (List.mem_of_getElem? h), rfl⟩

/-- Replacing a worker keeps the account if it balances for that worker and no other takes the
lock. -/
theorem Recorded.put (h : Recorded workers s) (hi : s.workers[i]? = some w) {w' : Worker α}
    {s' : Contest α} (hworkers : s'.workers = (s.put i w').workers) (hcore : w'.core = w.core)
    (hchange : w'.change = w.change)
    (hcount : w'.rounds + s'.order.count i + w.phase.begun =
      w.rounds + s.order.count i + w'.phase.begun)
    (hothers : ∀ j, j ≠ i → s'.order.count j = s.order.count j) : Recorded workers s' where
  length_eq := by
    rw [hworkers, ← h.length_eq]
    simp [Contest.put]
  worker := by
    intro j wj hj
    rw [hworkers, getElem?_put hi] at hj
    by_cases hji : j = i
    · rw [if_pos hji, Option.some.injEq] at hj
      subst hji hj
      obtain ⟨w₀, hw₀, hcore₀, hchange₀, hcount₀⟩ := h.worker j w hi
      exact ⟨w₀, hw₀, hcore.trans hcore₀, hchange.trans hchange₀, by omega⟩
    · rw [if_neg hji] at hj
      rw [hothers j hji]
      exact h.worker j wj hj

/-- Workers at different positions have different numbers. -/
theorem Recorded.core_ne (h : Recorded workers s) (hcores : (workers.map Worker.core).Nodup)
    {j : Nat} {w' : Worker α} (hi : s.workers[i]? = some w) (hj : s.workers[j]? = some w')
    (hij : i ≠ j) : w.core ≠ w'.core := by
  obtain ⟨w₀, hw₀, hcore, -, -⟩ := h.worker i w hi
  obtain ⟨w₀', hw₀', hcore', -, -⟩ := h.worker j w' hj
  obtain ⟨hlt, -⟩ := List.getElem?_eq_some_iff.1 hw₀
  intro heq
  refine hij ((List.getElem?_inj (by simpa using hlt) hcores).1 ?_)
  rw [List.getElem?_map, List.getElem?_map, hw₀, hw₀', Option.map_some, Option.map_some,
    ← hcore, ← hcore', heq]

theorem Recorded.changeOf_eq (h : Recorded workers s) (hi : s.workers[i]? = some w) :
    changeOf workers i = w.change := by
  obtain ⟨w₀, hw₀, -, hchange, -⟩ := h.worker i w hi
  rw [changeOf, hw₀, hchange]

/-- A worker that finds the lock free begins its round and is alone inside. -/
theorem Vacant.step (hrec : Recorded workers s) (h : Vacant workers value s)
    (hi : s.workers[i]? = some w) (hrounds : w.rounds ≠ 0) :
    ∃ s', s.step i = .ok s' ∧ Recorded workers s' ∧
      Occupied workers value s' i { w with phase := .entered } s.order := by
  have hphase := h.outside i w hi
  refine ⟨_, step_of_free hi hphase hrounds h.token_eq, ?_, ?_⟩
  · refine hrec.put hi rfl rfl rfl ?_ fun j hj => ?_
    · simp [hphase, Phase.begun]
      omega
    · exact List.count_cons_of_ne (Ne.symm hj)
  · refine ⟨?_, rfl, fun j w' hj hji => ?_, hrounds, rfl, h.value_eq⟩
    · exact (getElem?_put hi _ i).trans (if_pos rfl)
    · have hj : (s.put i { w with phase := .entered }).workers[j]? = some w' := hj
      rw [getElem?_put hi, if_neg hji] at hj
      exact h.outside j w' hj

/-- The worker inside reads the value, writes its update back, or ends its round. -/
theorem Occupied.step {earlier : List Nat} (hrec : Recorded workers s)
    (h : Occupied workers value s i w earlier) :
    ∃ s', s.step i = .ok s' ∧ Recorded workers s' ∧ s'.order = s.order ∧
      ((∃ w', Occupied workers value s' i w' earlier ∧ w'.phase.stepsLeft < w.phase.stepsLeft) ∨
        Vacant workers value s') := by
  have hi := h.worker
  -- The other workers stay as they are, whatever the worker inside does.
  have hothers : ∀ (w' : Worker α) j wj, (s.put i w').workers[j]? = some wj → j ≠ i →
      wj.phase = .outside := by
    intro w' j wj hj hji
    rw [getElem?_put hi, if_neg hji] at hj
    exact h.others j wj hj hji
  have hself : ∀ w' : Worker α, (s.put i w').workers[i]? = some w' :=
    fun w' => (getElem?_put hi w' i).trans (if_pos rfl)
  have hvalue := h.value_eq
  cases hphase : w.phase with
  | outside =>
    rw [hphase] at hvalue
    exact hvalue.elim
  | entered =>
    rw [hphase] at hvalue
    refine ⟨_, step_of_entered hi hphase, ?_, rfl,
      .inl ⟨{ w with phase := .loaded s.value }, ?_, by simp [Phase.stepsLeft]⟩⟩
    · exact hrec.put hi rfl rfl rfl (by simp [Contest.put, hphase, Phase.begun]) fun _ _ => rfl
    · exact ⟨hself _, h.token_eq, hothers _, h.rounds_ne, h.order_eq, hvalue, rfl⟩
  | loaded v =>
    rw [hphase] at hvalue
    refine ⟨_, step_of_loaded hi hphase, ?_, rfl,
      .inl ⟨{ w with phase := .stored }, ?_, by simp [Phase.stepsLeft]⟩⟩
    · exact hrec.put hi rfl rfl rfl (by simp [Contest.put, hphase, Phase.begun]) fun _ _ => rfl
    · refine ⟨hself _, h.token_eq, hothers _, h.rounds_ne, h.order_eq, ?_⟩
      -- Nobody has written since the worker read.
      change w.change v = applied workers value s.order.reverse
      rw [h.order_eq, List.reverse_cons, applied_append_singleton, hrec.changeOf_eq hi, hvalue.2,
        hvalue.1]
  | stored =>
    rw [hphase] at hvalue
    refine ⟨_, step_of_stored hi hphase h.token_eq, ?_, rfl, .inr ⟨rfl, ?_, hvalue⟩⟩
    · have := h.rounds_ne
      refine hrec.put hi rfl rfl rfl ?_ fun _ _ => rfl
      simp [Contest.put, hphase, Phase.begun]
      omega
    · intro j wj hj
      by_cases hji : j = i
      · subst hji
        rw [show _ = _ from hself _] at hj
        rw [← Option.some.inj hj]
      · exact hothers _ j wj hj hji

/-- No step is a misuse of the lock, and every step leaves the rounds one after the other. -/
theorem serial_step (hcores : (workers.map Worker.core).Nodup) (h : Serial workers value s)
    (i : Nat) : ∃ s', s.step i = .ok s' ∧ Serial workers value s' := by
  obtain ⟨hrec, hvacant | ⟨j, wj, earlier, hocc⟩⟩ := h
  · cases hi : s.workers[i]? with
    | none => exact ⟨s, step_of_none hi, hrec, .inl hvacant⟩
    | some w =>
      by_cases hrounds : w.rounds = 0
      · exact ⟨s, step_of_no_rounds hi (hvacant.outside i w hi) hrounds, hrec, .inl hvacant⟩
      · obtain ⟨s', hs', hrec', hocc⟩ := hvacant.step hrec hi hrounds
        exact ⟨s', hs', hrec', .inr ⟨i, _, _, hocc⟩⟩
  · by_cases hij : i = j
    · subst hij
      obtain ⟨s', hs', hrec', -, ⟨w', hocc', -⟩ | hvacant⟩ := hocc.step hrec
      · exact ⟨s', hs', hrec', .inr ⟨i, w', earlier, hocc'⟩⟩
      · exact ⟨s', hs', hrec', .inl hvacant⟩
    -- Another worker can only ask for the lock, and the owner word names somebody else.
    · refine ⟨s, ?_, hrec, .inr ⟨j, wj, earlier, hocc⟩⟩
      cases hi : s.workers[i]? with
      | none => exact step_of_none hi
      | some w =>
        exact step_of_held hi (hocc.others i w hi hij) hocc.token_eq
          (hrec.core_ne hcores hocc.worker hi (Ne.symm hij))

/-- No schedule leads to a misuse of the lock, and every schedule leaves the rounds one after the
other. -/
theorem serial_run (hcores : (workers.map Worker.core).Nodup) (h : Serial workers value s)
    (schedule : List Nat) : ∃ s', s.run schedule = .ok s' ∧ Serial workers value s' := by
  induction schedule generalizing s with
  | nil => exact ⟨s, rfl, h⟩
  | cons i rest ih =>
    obtain ⟨m, hm, hserial⟩ := serial_step hcores h i
    obtain ⟨s', hs', hserial'⟩ := ih hserial
    exact ⟨s', by rw [run, hm]; exact hs', hserial'⟩

/-! ## Finishing all rounds -/

theorem run_cons {s' : Contest α} (h : s.step i = .ok s') (rest : List Nat) :
    s.run (i :: rest) = s'.run rest := by
  rw [run, h]

theorem run_append {s' : Contest α} {first : List Nat} (h : s.run first = .ok s')
    (second : List Nat) : s.run (first ++ second) = s'.run second := by
  induction first generalizing s with
  | nil =>
    cases h
    rfl
  | cons i rest ih =>
    rw [run] at h
    rw [List.cons_append, run]
    cases hi : s.step i with
    | error e =>
      rw [hi] at h
      cases h
    | ok m =>
      rw [hi] at h
      exact ih h

/-- The worker inside can end its round. -/
theorem Occupied.exists_run {earlier : List Nat} (hrec : Recorded workers s)
    (h : Occupied workers value s i w earlier) :
    ∃ schedule s', s.run schedule = .ok s' ∧ Recorded workers s' ∧ s'.order = s.order ∧
      Vacant workers value s' := by
  induction hn : w.phase.stepsLeft using Nat.strong_induction_on generalizing s w with
  | _ n ih =>
    obtain ⟨m, hm, hrec', horder, ⟨w', hocc, hless⟩ | hvacant⟩ := h.step hrec
    · obtain ⟨rest, s', hs', hrec'', horder', hvacant⟩ := ih _ (hn ▸ hless) hrec' hocc rfl
      exact ⟨i :: rest, s', (run_cons hm rest).trans hs', hrec'', horder'.trans horder, hvacant⟩
    · exact ⟨[i], m, run_cons hm [], hrec', horder, hvacant⟩

/-- The rounds that are left after the given ones. -/
def remaining (workers : List (Worker α)) (order : List Nat) : Nat :=
  ∑ i : Fin workers.length, (workers[i].rounds - order.count i.val)

theorem remaining_cons_lt {w₀ : Worker α} {order : List Nat} (h : workers[i]? = some w₀)
    (hleft : order.count i < w₀.rounds) :
    remaining workers (i :: order) < remaining workers order := by
  obtain ⟨hi, rfl⟩ := List.getElem?_eq_some_iff.1 h
  refine Finset.sum_lt_sum (fun j _ => ?_) ⟨⟨i, hi⟩, Finset.mem_univ _, ?_⟩
  · exact Nat.sub_le_sub_left (List.count_le_count_cons ..) _
  · simp
    omega

/-- From a free lock all rounds can be finished. -/
theorem Vacant.exists_run_to_end (hrec : Recorded workers s) (h : Vacant workers value s) :
    ∃ schedule s', s.run schedule = .ok s' ∧ Vacant workers value s' ∧
      ∀ w ∈ s'.workers, w.rounds = 0 := by
  induction hn : remaining workers s.order using Nat.strong_induction_on generalizing s with
  | _ n ih =>
    by_cases hdone : ∀ w ∈ s.workers, w.rounds = 0
    · exact ⟨[], s, rfl, h, hdone⟩
    · push Not at hdone
      obtain ⟨w, hw, hrounds⟩ := hdone
      obtain ⟨i, hi⟩ := List.mem_iff_getElem?.1 hw
      obtain ⟨m, hm, hrec', hocc⟩ := h.step hrec hi hrounds
      obtain ⟨round, m', hm', hrec'', horder, hvacant⟩ := hocc.exists_run hrec'
      -- The worker's account still holds a round, which is now one of those that took the lock.
      obtain ⟨w₀, hw₀, -, -, hcount⟩ := hrec.worker i w hi
      rw [h.outside i w hi] at hcount
      have hless : remaining workers m'.order < n := by
        rw [horder, hocc.order_eq, ← hn]
        exact remaining_cons_lt hw₀ (by simp only [Phase.begun] at hcount; omega)
      obtain ⟨rest, s', hs', hend⟩ := ih _ hless hrec'' hvacant rfl
      exact ⟨i :: (round ++ rest), s', (run_cons hm _).trans ((run_append hm' rest).trans hs'),
        hend⟩

/-- From every state in which the rounds are one after the other all of them can be finished. -/
theorem Serial.exists_run_to_end (h : Serial workers value s) :
    ∃ schedule s', s.run schedule = .ok s' ∧ Vacant workers value s' ∧
      ∀ w ∈ s'.workers, w.rounds = 0 := by
  obtain ⟨hrec, hvacant | ⟨i, w, earlier, hocc⟩⟩ := h
  · exact hvacant.exists_run_to_end hrec
  · obtain ⟨first, m, hm, hrec', -, hvacant⟩ := hocc.exists_run hrec
    obtain ⟨rest, s', hs', hend⟩ := hvacant.exists_run_to_end hrec'
    exact ⟨first ++ rest, s', (run_append hm rest).trans hs', hend⟩

/-- A free lock has nobody inside. -/
theorem Serial.vacant (h : Serial workers value s) (hfree : s.token.held = false) :
    Vacant workers value s := by
  obtain ⟨-, hvacant | ⟨i, w, earlier, hocc⟩⟩ := h
  · exact hvacant
  · rw [hocc.token_eq] at hfree
    cases hfree

/-- With different numbers, whatever schedule the workers follow, none of their steps is a misuse of
the lock. Whenever the lock is free, each worker has as many rounds left as it had at first less the
times it took the lock, and the value is what the rounds give one after the other in the order in
which they took it. From there all rounds can be finished. -/
theorem no_lost_update (value : α) (workers : List (Worker α))
    (hcores : (workers.map Worker.core).Nodup) (hnew : ∀ w ∈ workers, w.phase = .outside)
    (schedule : List Nat) :
    ∃ s, (start value workers).run schedule = .ok s ∧
      (s.token.held = false →
        s.value = applied workers value s.order.reverse ∧
          ∀ i w, workers[i]? = some w →
            ∃ w', s.workers[i]? = some w' ∧ w'.rounds + s.order.count i = w.rounds) ∧
      ∃ rest s', (start value workers).run (schedule ++ rest) = .ok s' ∧
        s'.token.held = false ∧ ∀ w ∈ s'.workers, w.rounds = 0 := by
  obtain ⟨s, hs, hserial⟩ := serial_run hcores (serial_start hnew value) schedule
  refine ⟨s, hs, fun hfree => ?_, ?_⟩
  · have hvacant := hserial.vacant hfree
    refine ⟨hvacant.value_eq, fun i w hi => ?_⟩
    obtain ⟨hlt, -⟩ := List.getElem?_eq_some_iff.1 hi
    have hi' := List.getElem?_eq_getElem (hserial.recorded.length_eq ▸ hlt)
    obtain ⟨w₀, hw₀, -, -, hcount⟩ := hserial.recorded.worker i _ hi'
    rw [hi, Option.some.injEq] at hw₀
    rw [hvacant.outside i _ hi'] at hcount
    exact ⟨_, hi', hw₀ ▸ hcount⟩
  · obtain ⟨rest, s', hs', hvacant, hend⟩ := hserial.exists_run_to_end
    refine ⟨rest, s', (run_append hs rest).trans hs', ?_, hend⟩
    rw [hvacant.token_eq]
    rfl

/-- Worker 1 asks for the lock in vain twice, and its number lands between the two of worker 0. -/
theorem value_of_interleaved_pushes :
    let workers := [Worker.waiting 0 (· ++ [10]) 2, Worker.waiting 1 (· ++ [20]) 1]
    let schedule := [0, 1, 0, 0, 1, 0, 1, 1, 0, 1, 1, 0, 0, 0, 0]
    (workers.map Worker.core).Nodup ∧ (∀ w ∈ workers, w.phase = .outside) ∧
      ∃ s, (start [] workers).run schedule = .ok s ∧ s.token.held = false ∧
        s.value = [10, 20, 10] := by
  intro workers schedule
  have hcores : (workers.map Worker.core).Nodup := by decide
  have hnew : ∀ w ∈ workers, w.phase = .outside := by
    simp [workers, Worker.waiting]
  obtain ⟨s, hs, hvalue, -⟩ := no_lost_update [] workers hcores hnew schedule
  -- The run itself tells who took the lock when, and the theorem what that makes of the value.
  obtain rfl := Except.ok.inj hs
  exact ⟨hcores, hnew, _, hs, rfl, (hvalue rfl).1⟩

end Contest

end Handheld
