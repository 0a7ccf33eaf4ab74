import Handheld.Lock.Token

/-!
# Core numbers of the host's threads

Core 0 runs the frames and core 1 is the second core. Every other thread of the host gets a number
of its own when it first asks, counting up in eight bits and leaving out the two reserved numbers.

* `reserved_lt_firstHost`: a host thread never gets a reserved number.
* `number_assigned`: a thread that asks again gets its first number.
-/

namespace Handheld

/-- The number of the core that runs the frames. -/
def CoreId.frames : CoreId := 0

/-- The number of the second core. -/
def CoreId.second : CoreId := 1

/-- The numbers handed out to the threads of the host so far. -/
structure CoreNumbers where
  /-- The number to try next. -/
  next : UInt8
  /-- The threads that have a number, with it. -/
  assigned : List (Nat × CoreId)
deriving DecidableEq, Repr

namespace CoreNumbers

/-- No host thread has asked. -/
def initial : CoreNumbers := ⟨2, []⟩

instance : Inhabited CoreNumbers := ⟨initial⟩

/-- The first number from `next` on that is not reserved. -/
def firstHost (next : UInt8) : CoreId :=
  if next ≤ CoreId.second then firstHost (next + 1) else next
termination_by 2 - next.toNat
decreasing_by
  -- A reserved number is below two, so counting up from it does not wrap.
  have h : next.toNat ≤ 1 := by simpa [CoreId.second, UInt8.le_iff_toNat_le] using ‹_›
  have : (next + 1).toNat = next.toNat + 1 := by
    rw [UInt8.toNat_add]
    simp
    omega
  omega

/-- The number of a thread, which is handed out when the thread first asks. -/
def number (c : CoreNumbers) (thread : Nat) : CoreId × CoreNumbers :=
  match c.assigned.lookup thread with
  | some core => (core, c)
  | none =>
    let core := firstHost c.next
    (core, ⟨core + 1, (thread, core) :: c.assigned⟩)

/-- The numbers of threads that ask one after the other. -/
def numbers (c : CoreNumbers) : List Nat → List CoreId × CoreNumbers
  | [] => ([], c)
  | thread :: rest =>
    let (core, c') := c.number thread
    let (cores, c'') := c'.numbers rest
    (core :: cores, c'')

/-- A host thread never gets a reserved number. -/
theorem reserved_lt_firstHost (next : UInt8) : CoreId.second < firstHost next := by
  fun_induction firstHost next with
  | case1 next h ih => exact ih
  | case2 next h => exact UInt8.not_le.1 h

/-- A thread that has a number keeps it. -/
theorem number_assigned {c : CoreNumbers} {thread : Nat} {core : CoreId}
    (h : c.assigned.lookup thread = some core) : c.number thread = (core, c) := by
  simp [number, h]

end CoreNumbers

end Handheld
