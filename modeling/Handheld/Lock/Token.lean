/-!
# The lock words

Two cores exclude each other through two words: whether the lock is held, and by which core. Each
operation below is one step of the calling core. A refused call changes nothing, because a refusal
returns no token.

* `enter_eq_ok_some_iff` and `tryEnter_eq_some_iff`: an acquire succeeds exactly on a free lock.
* `exit_eq_ok_iff`: a release succeeds exactly for the owner.
-/

namespace Handheld

/-- The number of a core: 0 runs the frames, 1 is the second core, the others belong to the host. -/
abbrev CoreId := UInt8

/-- The two lock words. -/
structure Token where
  /-- The lock word. -/
  held : Bool
  /-- The owner word, `none` for nobody. -/
  owner : Option CoreId
deriving DecidableEq, Repr

/-- A use of the lock that the lock itself detects. -/
inductive Misuse where
  /-- A core asks for the lock that it holds, and would wait for itself. -/
  | reentered (core : CoreId)
  /-- A core releases a lock that it does not hold. -/
  | notOwner (owner : Option CoreId) (core : CoreId)
deriving DecidableEq, Repr

namespace Misuse

/-- The owner word as a number: minus one for nobody. -/
def ownerText : Option CoreId → String
  | none => "-1"
  | some core => toString core.toNat

/-- The text with which the misuse is reported: what should have held, the owner word found and the
calling core. -/
def message : Misuse → String
  | reentered core =>
    let n := toString core.toNat
    "assertion `left != right` failed: mutex re-entered on core " ++ n ++
      "; this deadlocks\n  left: " ++ n ++ "\n right: " ++ n
  | notOwner owner core =>
    "assertion `left == right` failed: mutex released by a core that does not hold it\n  left: " ++
      ownerText owner ++ "\n right: " ++ toString core.toNat

end Misuse

namespace Token

/-- A lock that nobody holds. -/
def free : Token := ⟨false, none⟩

instance : Inhabited Token := ⟨free⟩

/-- The lock in the hands of a core. -/
def heldBy (core : CoreId) : Token := ⟨true, some core⟩

/-- Ask for the lock and wait for it: `none` while somebody else holds it. -/
def enter (t : Token) (me : CoreId) : Except Misuse (Option Token) :=
  if t.owner = some me then .error (.reentered me)
  else if t.held then .ok none
  else .ok (some (heldBy me))

/-- Take the lock if it is free. -/
def tryEnter (t : Token) (me : CoreId) : Option Token :=
  if t.held then none else some (heldBy me)

/-- Release the lock. -/
def exit (t : Token) (me : CoreId) : Except Misuse Token :=
  if t.owner = some me then .ok free else .error (.notOwner t.owner me)

/-- Waiting ends with the lock exactly if it is free and the caller is not recorded as owner. -/
theorem enter_eq_ok_some_iff {t t' : Token} {me : CoreId} :
    t.enter me = .ok (some t') ↔ t.owner ≠ some me ∧ t.held = false ∧ t' = heldBy me := by
  unfold enter
  by_cases ho : t.owner = some me
  · simp [ho]
  · cases h : t.held <;> simp [ho, eq_comm]

/-- A try succeeds exactly on a free lock. -/
theorem tryEnter_eq_some_iff {t t' : Token} {me : CoreId} :
    t.tryEnter me = some t' ↔ t.held = false ∧ t' = heldBy me := by
  unfold tryEnter
  cases h : t.held <;> simp [eq_comm]

/-- A release succeeds exactly for the recorded owner, and leaves the lock free. -/
theorem exit_eq_ok_iff {t t' : Token} {me : CoreId} :
    t.exit me = .ok t' ↔ t.owner = some me ∧ t' = free := by
  unfold exit
  by_cases ho : t.owner = some me <;> simp [ho, eq_comm]

end Token

end Handheld
