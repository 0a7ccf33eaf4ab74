import Handheld.Lock.Token

/-!
# Cores that contend for a shared value

Each worker runs rounds of four steps: take the lock, read the value, write back the value changed
by its own update, and release the lock. The steps of different workers interleave in any order;
a worker that finds the lock held stays where it is and tries again.
-/

namespace Handheld

/-- How far a worker is in its round. -/
inductive Phase (α : Type) where
  /-- Between rounds. -/
  | outside
  /-- The lock is taken and nothing has been read. -/
  | entered
  /-- The value has been read. -/
  | loaded (value : α)
  /-- The changed value has been written. -/
  | stored
deriving DecidableEq, Repr

/-- A core with the rounds that it still has to do. -/
structure Worker (α : Type) where
  /-- The core's number. -/
  core : CoreId
  /-- What one round does to the value. -/
  change : α → α
  /-- Rounds not finished yet. -/
  rounds : Nat
  /-- Progress in the current round. -/
  phase : Phase α

/-- A shared value under a lock, and the workers that contend for it. -/
structure Contest (α : Type) where
  /-- The lock words. -/
  token : Token
  /-- The shared value. -/
  value : α
  /-- The contending cores. -/
  workers : List (Worker α)
  /-- The workers that took the lock so far, by position, the latest first. -/
  order : List Nat

/-- A worker that has not started its rounds. -/
def Worker.waiting {α : Type} (core : CoreId) (change : α → α) (rounds : Nat) : Worker α :=
  ⟨core, change, rounds, .outside⟩

namespace Contest

variable {α : Type}

/-- A free lock around a value, with workers that have not started. -/
def start (value : α) (workers : List (Worker α)) : Contest α := ⟨.free, value, workers, []⟩

/-- One step of the worker at position `i`. Nothing changes if there is no such worker, if it has no
round left to do, or if it finds the lock held by another core. -/
def step (s : Contest α) (i : Nat) : Except Misuse (Contest α) :=
  match s.workers[i]? with
  | none => .ok s
  | some w =>
    match w.phase with
    | .outside =>
      if w.rounds = 0 then .ok s
      else
        match s.token.enter w.core with
        | .error e => .error e
        | .ok none => .ok s
        | .ok (some t) =>
          .ok { s with
            token := t
            workers := s.workers.set i { w with phase := .entered }
            order := i :: s.order }
    | .entered => .ok { s with workers := s.workers.set i { w with phase := .loaded s.value } }
    | .loaded v =>
      .ok { s with
        value := w.change v
        workers := s.workers.set i { w with phase := .stored } }
    | .stored =>
      match s.token.exit w.core with
      | .error e => .error e
      | .ok t =>
        .ok { s with
          token := t
          workers := s.workers.set i { w with phase := .outside, rounds := w.rounds - 1 } }

/-- The steps of a schedule, which names the worker of each step by its position. -/
def run (s : Contest α) : List Nat → Except Misuse (Contest α)
  | [] => .ok s
  | i :: rest =>
    match s.step i with
    | .error e => .error e
    | .ok s' => run s' rest

/-- A schedule in which the workers take turns, a whole round at a time. -/
def turns (workers rounds : Nat) : List Nat :=
  (List.range rounds).flatMap fun _ => (List.range workers).flatMap fun i => [i, i, i, i]

/-- Let the workers take turns until every round is done. -/
def finish (s : Contest α) : Except Misuse (Contest α) :=
  s.run (turns s.workers.length (s.workers.foldl (fun n w => max n w.rounds) 0))

end Contest

end Handheld
