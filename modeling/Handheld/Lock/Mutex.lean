import Handheld.Lock.Token

/-!
# Data behind a lock

A lock together with the data that it guards. A core that holds the lock works through a guard;
dropping the guard releases the lock, and only the core that took it may do that. Where a guard
exists, the data cannot be reached around the lock.
-/

namespace Handheld

/-- Data guarded by a lock. -/
structure Mutex (α : Type) where
  /-- The lock words. -/
  token : Token
  /-- A guard exists. -/
  guarded : Bool
  /-- The guarded data. -/
  data : α
deriving DecidableEq, Repr

namespace Mutex

variable {α : Type}

/-- Data behind a free lock. -/
def new (data : α) : Mutex α := ⟨.free, false, data⟩

/-- Wait for the lock and make a guard: `none` while somebody else holds it. -/
def lock (m : Mutex α) (me : CoreId) : Except Misuse (Option (Mutex α)) :=
  (m.token.enter me).map (·.map fun t => { m with token := t, guarded := true })

/-- Make a guard if the lock is free. -/
def tryLock (m : Mutex α) (me : CoreId) : Option (Mutex α) :=
  (m.token.tryEnter me).map fun t => { m with token := t, guarded := true }

/-- Drop the guard. The guard is gone in any case; the lock becomes free only if its owner drops. -/
def unlock (m : Mutex α) (me : CoreId) : Except Misuse Unit × Mutex α :=
  match m.token.exit me with
  | .ok t => (.ok (), { m with token := t, guarded := false })
  | .error e => (.error e, { m with guarded := false })

/-- Change the data through the guard: `none` if there is no guard. -/
def withGuard (m : Mutex α) (change : α → α) : Option (Mutex α) :=
  if m.guarded then some { m with data := change m.data } else none

/-- Change the data without the lock: `none` while a guard exists. -/
def withoutLock (m : Mutex α) (change : α → α) : Option (Mutex α) :=
  if m.guarded then none else some { m with data := change m.data }

/-- Lock, change the data, and release: `none` while somebody else holds the lock. -/
def update (m : Mutex α) (me : CoreId) (change : α → α) : Except Misuse (Option (Mutex α)) :=
  match m.lock me with
  | .error e => .error e
  | .ok none => .ok none
  | .ok (some held) =>
    match { held with data := change held.data }.unlock me with
    | (.ok (), freed) => .ok (some freed)
    | (.error e, _) => .error e

/-- On a free lock an update changes the data and leaves the lock free. -/
theorem update_of_free {m : Mutex α} (hheld : m.token = .free) (me : CoreId) (change : α → α) :
    m.update me change = .ok (some ⟨.free, false, change m.data⟩) := by
  simp [update, lock, unlock, Token.enter, Token.exit, Token.free, Token.heldBy, hheld, Except.map]

end Mutex

end Handheld
