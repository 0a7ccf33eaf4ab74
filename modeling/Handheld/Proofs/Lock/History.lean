import Handheld.Lock.Mutex
import Mathlib.Data.List.Induction

/-!
# Histories of a lock

The calls that cores make on a lock and on the data behind it, one step each, and what a sequence of
calls by any cores in any order leads to.

* `acquired_iff`, `released_iff`, `token_call_of_refused`: when a call succeeds, and that a call
  that does not changes nothing.
* `tracks_call`, `tracks_after`: the lock words stay in step with the log, call by call.
* `lock_state_machine`: all of it for every history from a free lock, with mutual exclusion.
-/

namespace Handheld

/-- The calls on a lock: on the lock words directly, and through the data that they guard. -/
inductive LockCall where
  /-- Wait for the lock. -/
  | enter
  /-- Take the lock if it is free. -/
  | tryEnter
  /-- Release the lock. -/
  | exit
  /-- Wait for a guard. -/
  | lock
  /-- Make a guard if the lock is free. -/
  | tryLock
  /-- Drop a guard. -/
  | drop
deriving DecidableEq, Repr

/-- The call asks for the lock. -/
def LockCall.Acquires (call : LockCall) : Prop :=
  call = .enter ∨ call = .tryEnter ∨ call = .lock ∨ call = .tryLock

/-- The call gives the lock back. -/
def LockCall.Releases (call : LockCall) : Prop := call = .exit ∨ call = .drop

/-- How a call ends. -/
inductive LockOutcome where
  /-- The caller has the lock now. -/
  | acquired
  /-- The caller has given the lock back. -/
  | released
  /-- The caller goes on waiting. -/
  | waiting
  /-- A try finds the lock held. -/
  | unavailable
  /-- The lock detects a misuse and stops the caller. -/
  | misused (cause : Misuse)
deriving DecidableEq, Repr

/-- The call changes who holds the lock; any other outcome is a refusal. -/
def LockOutcome.Succeeds (outcome : LockOutcome) : Prop :=
  outcome = .acquired ∨ outcome = .released

/-- A sequence of outcomes, each with the core that made the call, the earliest first. -/
abbrev LockLog := List (CoreId × LockOutcome)

/-- The last success in the log is an acquire by the core. -/
def LastAcquire (log : LockLog) (core : CoreId) : Prop :=
  ∃ earlier later, log = earlier ++ (core, .acquired) :: later ∧ ∀ o ∈ later, ¬ o.2.Succeeds

/-- The core has acquired the lock and has not released it since, whatever others did. -/
def Holds (log : LockLog) (core : CoreId) : Prop :=
  ∃ earlier later, log = earlier ++ (core, .acquired) :: later ∧ (core, .released) ∉ later

/-- An entry in a log that has grown by one is the new one, or an old one with the new one after
it. -/
theorem append_singleton_eq_append_cons {log earlier later : LockLog} {x y : CoreId × LockOutcome}
    (h : log ++ [x] = earlier ++ y :: later) :
    (x = y ∧ later = []) ∨ ∃ older, later = older ++ [x] ∧ log = earlier ++ y :: older := by
  cases later using List.reverseRecOn with
  | nil =>
    obtain ⟨-, hlast⟩ := List.append_inj' h rfl
    exact .inl ⟨List.singleton_inj.1 hlast, rfl⟩
  | append_singleton older z =>
    rw [← List.cons_append, ← List.append_assoc] at h
    obtain ⟨hlog, hlast⟩ := List.append_inj' h rfl
    rw [List.singleton_inj.1 hlast]
    exact .inr ⟨older, rfl, hlog⟩

/-- A success becomes the last one of a log, and any other outcome leaves the last one. -/
theorem lastAcquire_append_singleton {log : LockLog} {me core : CoreId} {o : LockOutcome} :
    LastAcquire (log ++ [(me, o)]) core ↔
      (o = .acquired ∧ core = me) ∨ (¬ o.Succeeds ∧ LastAcquire log core) := by
  constructor
  · rintro ⟨earlier, later, heq, hlater⟩
    rcases append_singleton_eq_append_cons heq with ⟨hx, -⟩ | ⟨older, rfl, hlog⟩
    · obtain ⟨rfl, rfl⟩ := Prod.mk.inj hx
      exact .inl ⟨rfl, rfl⟩
    · refine .inr ⟨hlater (me, o) (by simp), earlier, older, hlog, ?_⟩
      exact fun o' ho' => hlater o' (List.mem_append_left _ ho')
  · rintro (⟨rfl, rfl⟩ | ⟨ho, earlier, later, rfl, hlater⟩)
    · exact ⟨log, [], rfl, by simp⟩
    · refine ⟨earlier, later ++ [(me, o)], by simp, fun o' ho' => ?_⟩
      rcases List.mem_append.1 ho' with h | h
      · exact hlater o' h
      · rw [List.mem_singleton.1 h]
        exact ho

/-- A core that holds the lock after an outcome has just acquired it, or held it before and has not
just released it. -/
theorem holds_of_append_singleton {log : LockLog} {me core : CoreId} {o : LockOutcome}
    (h : Holds (log ++ [(me, o)]) core) :
    (o = .acquired ∧ core = me) ∨ (¬ (me = core ∧ o = .released) ∧ Holds log core) := by
  obtain ⟨earlier, later, heq, hlater⟩ := h
  rcases append_singleton_eq_append_cons heq with ⟨hx, -⟩ | ⟨older, rfl, hlog⟩
  · obtain ⟨rfl, rfl⟩ := Prod.mk.inj hx
    exact .inl ⟨rfl, rfl⟩
  · refine .inr ⟨?_, earlier, older, hlog, fun h => hlater (List.mem_append_left _ h)⟩
    rintro ⟨rfl, rfl⟩
    exact hlater (by simp)

namespace Mutex

variable {α : Type}

/-- One call by a core: how it ends and what it leaves. -/
def call (m : Mutex α) (me : CoreId) : LockCall → LockOutcome × Mutex α
  | .enter =>
    match m.token.enter me with
    | .ok (some token) => (.acquired, { m with token })
    | .ok none => (.waiting, m)
    | .error cause => (.misused cause, m)
  | .tryEnter =>
    match m.token.tryEnter me with
    | some token => (.acquired, { m with token })
    | none => (.unavailable, m)
  | .exit =>
    match m.token.exit me with
    | .ok token => (.released, { m with token })
    | .error cause => (.misused cause, m)
  | .lock =>
    match m.lock me with
    | .ok (some held) => (.acquired, held)
    | .ok none => (.waiting, m)
    | .error cause => (.misused cause, m)
  | .tryLock =>
    match m.tryLock me with
    | some held => (.acquired, held)
    | none => (.unavailable, m)
  | .drop =>
    match m.unlock me with
    | (.ok (), freed) => (.released, freed)
    | (.error cause, kept) => (.misused cause, kept)

/-- What a sequence of calls leaves. -/
def after (m : Mutex α) (calls : List (CoreId × LockCall)) : Mutex α :=
  calls.foldl (fun m c => (m.call c.1 c.2).2) m

/-- How the calls of a sequence end. -/
def outcomes (m : Mutex α) : List (CoreId × LockCall) → LockLog
  | [] => []
  | c :: rest => (c.1, (m.call c.1 c.2).1) :: (m.call c.1 c.2).2.outcomes rest

@[simp]
theorem after_append_singleton (m : Mutex α) (calls : List (CoreId × LockCall))
    (c : CoreId × LockCall) : m.after (calls ++ [c]) = ((m.after calls).call c.1 c.2).2 := by
  rw [after, List.foldl_append]
  rfl

@[simp]
theorem outcomes_append_singleton (m : Mutex α) (calls : List (CoreId × LockCall))
    (c : CoreId × LockCall) :
    m.outcomes (calls ++ [c]) = m.outcomes calls ++ [(c.1, ((m.after calls).call c.1 c.2).1)] := by
  induction calls generalizing m with
  | nil => rfl
  | cons d rest ih => exact congrArg (List.cons _) (ih _)

/-- Everything that a call can do: it succeeds and hands the lock over, or it is refused, with the
reason for the refusal, and leaves the lock words as they were. -/
theorem call_cases (m : Mutex α) (me : CoreId) (c : LockCall) :
    ((m.call me c).1 = .acquired ∧ c.Acquires ∧ m.token.held = false ∧
        (m.call me c).2.token = .heldBy me) ∨
      ((m.call me c).1 = .released ∧ c.Releases ∧ m.token.owner = some me ∧
        (m.call me c).2.token = .free) ∨
      (¬ (m.call me c).1.Succeeds ∧ (m.call me c).2.token = m.token ∧
        (c.Acquires → m.token.held = true ∨ m.token.owner = some me) ∧
        (c.Releases → m.token.owner ≠ some me)) := by
  unfold LockOutcome.Succeeds LockCall.Acquires LockCall.Releases
  cases c with
  | enter | lock =>
    -- The owner is looked at first, so a core that has the lock stops and does not wait.
    by_cases ho : m.token.owner = some me
    · simp [call, lock, Token.enter, ho, Except.map]
    · cases hh : m.token.held <;> simp [call, lock, Token.enter, ho, hh, Except.map]
  | tryEnter | tryLock =>
    cases hh : m.token.held <;> simp [call, tryLock, Token.tryEnter, hh]
  | exit | drop =>
    by_cases ho : m.token.owner = some me <;> simp [call, unlock, Token.exit, ho]

/-- No call changes the guarded data. -/
@[simp]
theorem data_call (m : Mutex α) (me : CoreId) (c : LockCall) :
    (m.call me c).2.data = m.data := by
  cases c with
  | enter | lock =>
    unfold call lock
    rcases m.token.enter me with _ | _ | _ <;> rfl
  | tryEnter | tryLock =>
    unfold call tryLock
    rcases m.token.tryEnter me with _ | _ <;> rfl
  | exit | drop =>
    unfold call unlock
    rcases m.token.exit me with _ | _ <;> rfl

/-- What the lock words have to do with the log of all calls so far. -/
structure Tracks (token : Token) (log : LockLog) : Prop where
  /-- The lock word and the owner word agree. -/
  held_iff : token.held = true ↔ token.owner ≠ none
  /-- The owner word names the core of the last acquire that no release has followed. -/
  owner_iff : ∀ core, token.owner = some core ↔ LastAcquire log core
  /-- Whoever holds the lock is its owner. -/
  owner_of_holds : ∀ core, Holds log core → token.owner = some core

/-- A free lock without a history. -/
theorem tracks_free : Tracks .free [] where
  held_iff := by simp [Token.free]
  owner_iff core := by simp [Token.free, LastAcquire]
  owner_of_holds core h := by
    obtain ⟨earlier, later, heq, -⟩ := h
    simp at heq

/-- One call keeps the lock words in step with the log. -/
theorem tracks_call {m : Mutex α} {log : LockLog} (h : Tracks m.token log) (me : CoreId)
    (c : LockCall) : Tracks (m.call me c).2.token (log ++ [(me, (m.call me c).1)]) := by
  rcases call_cases m me c with ⟨ho, -, hheld, ht⟩ | ⟨ho, -, howner, ht⟩ | ⟨ho, ht, -, -⟩
  · -- The lock was free, so nobody held it before.
    have hnone : m.token.owner = none := by
      by_contra hne
      rw [h.held_iff.2 hne] at hheld
      cases hheld
    rw [ho, ht]
    refine ⟨by simp [Token.heldBy], fun core => ?_, fun core hcore => ?_⟩
    · rw [lastAcquire_append_singleton]
      simp [Token.heldBy, LockOutcome.Succeeds, eq_comm]
    · rcases holds_of_append_singleton hcore with ⟨-, rfl⟩ | ⟨-, hold⟩
      · rfl
      · rw [h.owner_of_holds core hold] at hnone
        cases hnone
  · rw [ho, ht]
    refine ⟨by simp [Token.free], fun core => ?_, fun core hcore => ?_⟩
    · rw [lastAcquire_append_singleton]
      simp [Token.free, LockOutcome.Succeeds]
    · rcases holds_of_append_singleton hcore with ⟨heq, -⟩ | ⟨hne, hold⟩
      · cases heq
      -- The one who held it is the owner who has just released it.
      · have := h.owner_of_holds core hold
        rw [howner, Option.some.injEq] at this
        exact absurd ⟨this, rfl⟩ hne
  · rw [ht]
    refine ⟨h.held_iff, fun core => ?_, fun core hcore => ?_⟩
    · rw [lastAcquire_append_singleton, h.owner_iff core]
      have hacq : (m.call me c).1 ≠ .acquired := fun heq => ho (.inl heq)
      simp [ho, hacq]
    · rcases holds_of_append_singleton hcore with ⟨heq, -⟩ | ⟨-, hold⟩
      · exact absurd (.inl heq) ho
      · exact h.owner_of_holds core hold

/-- Any history of calls on a free lock keeps the lock words in step with its log. -/
theorem tracks_after (data : α) (calls : List (CoreId × LockCall)) :
    Tracks ((new data).after calls).token ((new data).outcomes calls) := by
  induction calls using List.reverseRecOn with
  | nil => exact tracks_free
  | append_singleton calls c ih =>
    rw [after_append_singleton, outcomes_append_singleton]
    exact tracks_call ih c.1 c.2

/-- A call acquires the lock exactly if it asks for it and the lock is free. -/
theorem acquired_iff {m : Mutex α} (h : m.token.held = true ↔ m.token.owner ≠ none) (me : CoreId)
    (c : LockCall) : (m.call me c).1 = .acquired ↔ c.Acquires ∧ m.token.held = false := by
  rcases call_cases m me c with ⟨ho, hc, hheld, -⟩ | ⟨ho, hc, howner, -⟩ | ⟨ho, -, hacq, -⟩
  · simp [ho, hc, hheld]
  · have hheld := h.2 (by rw [howner]; simp)
    simp [ho, hheld]
  · refine ⟨fun heq => absurd (.inl heq) ho, fun ⟨hc, hfree⟩ => ?_⟩
    rcases hacq hc with hheld | howner
    · rw [hfree] at hheld
      cases hheld
    · have hheld := h.2 (by rw [howner]; simp)
      rw [hfree] at hheld
      cases hheld

/-- A call releases the lock exactly if it gives it back and the caller is the owner. -/
theorem released_iff (m : Mutex α) (me : CoreId) (c : LockCall) :
    (m.call me c).1 = .released ↔ c.Releases ∧ m.token.owner = some me := by
  rcases call_cases m me c with ⟨ho, hc, -, -⟩ | ⟨ho, hc, howner, -⟩ | ⟨ho, -, -, hrel⟩
  · rw [ho]
    unfold LockCall.Releases
    rcases hc with rfl | rfl | rfl | rfl <;> simp
  · simp [ho, hc, howner]
  · exact ⟨fun heq => absurd (.inr heq) ho, fun ⟨hc, howner⟩ => absurd howner (hrel hc)⟩

/-- A refused call changes nothing. -/
theorem token_call_of_refused {m : Mutex α} {me : CoreId} {c : LockCall}
    (h : ¬ (m.call me c).1.Succeeds) : (m.call me c).2.token = m.token := by
  rcases call_cases m me c with ⟨ho, -⟩ | ⟨ho, -⟩ | ⟨-, ht, -⟩
  · exact absurd (.inl ho) h
  · exact absurd (.inr ho) h
  · exact ht

/-- After any history of calls on a free lock the lock word is set exactly if the owner word names a
core, which is the core of the last acquire that no release has followed. The next call acquires the
lock exactly if it asks for it and the lock is free, releases it exactly if it gives it back and the
caller is the owner, and changes neither the lock words nor the data if it is refused. Two cores
never hold the lock at once. -/
theorem lock_state_machine (data : α) (calls : List (CoreId × LockCall)) :
    let m := (new data).after calls
    let log := (new data).outcomes calls
    (m.token.held = true ↔ m.token.owner ≠ none) ∧
      (∀ core, m.token.owner = some core ↔ LastAcquire log core) ∧
      (∀ me c, (m.call me c).1 = .acquired ↔ c.Acquires ∧ m.token.held = false) ∧
      (∀ me c, (m.call me c).1 = .released ↔ c.Releases ∧ m.token.owner = some me) ∧
      (∀ me c, ¬ (m.call me c).1.Succeeds →
        (m.call me c).2.token = m.token ∧ (m.call me c).2.data = m.data) ∧
      ∀ core core', Holds log core → Holds log core' → core = core' := by
  intro m log
  have h : Tracks m.token log := tracks_after data calls
  refine ⟨h.held_iff, h.owner_iff, acquired_iff h.held_iff, released_iff m, ?_, ?_⟩
  · exact fun me c hrefused => ⟨token_call_of_refused hrefused, data_call m me c⟩
  · intro core core' hcore hcore'
    have := (h.owner_of_holds core hcore).symm.trans (h.owner_of_holds core' hcore')
    exact Option.some.inj this

/-- Core 1 has the lock until it drops its guard, whatever it and core 2 try meanwhile. -/
example :
    (new ()).outcomes
        [(1, .lock), (2, .exit), (1, .enter), (2, .tryLock), (2, .enter), (1, .drop)] =
      [(1, .acquired), (2, .misused (.notOwner (some 1) 2)), (1, .misused (.reentered 1)),
        (2, .unavailable), (2, .waiting), (1, .released)] := by
  decide

end Mutex

end Handheld
