import Handheld.Core.Numbers
import Mathlib.Data.List.Induction
import Mathlib.Data.List.Nodup

/-!
# Numbers of the host's threads

The threads of the host take their core numbers from one counter of eight bits. A thread without a
number takes what the counter shows and moves it on, and tries again if that number is reserved. The
`n`-th thread to get a number gets `hostNumber n`, two more than the remainder of `n` by 254,
whether the threads ask one after the other or their tries are interleaved.

* `hostNumber_eq_iff`, `firstHost_hostNumber_add_one`: the numbers go round, past the reserved ones.
* `number_eq_tries`: a search that nobody disturbs ends after three tries at most.
* `Served`: which threads have been served, and in which order; kept by a try
  (`Served.exists_try`) and by a whole search (`Served.number`).
* `Served.exists_tries`: interleaved tries, with the numbers that they take off the counter.
* `numbers_of_served`: what threads get that ask one after the other.
* `host_numbers_go_round`: all of it.
-/

namespace Handheld.CoreNumbers

/-! ## The numbers -/

/-- The number of the thread that is served after `n` others. -/
def hostNumber (n : Nat) : CoreId := UInt8.ofNat (2 + n % 254)

theorem toNat_hostNumber (n : Nat) : (hostNumber n).toNat = 2 + n % 254 := by
  rw [hostNumber, UInt8.toNat_ofNat']
  omega

/-- Two threads have the same number exactly if a multiple of 254 lies between them. -/
theorem hostNumber_eq_iff {m n : Nat} : hostNumber m = hostNumber n ↔ m % 254 = n % 254 := by
  rw [← UInt8.toNat_inj, toNat_hostNumber, toNat_hostNumber, Nat.add_left_cancel_iff]

theorem second_lt_hostNumber (n : Nat) : CoreId.second < hostNumber n := by
  rw [UInt8.lt_iff_toNat_lt, toNat_hostNumber]
  show 1 < 2 + n % 254
  omega

theorem firstHost_of_reserved {next : UInt8} (h : next ≤ CoreId.second) :
    firstHost next = firstHost (next + 1) := by
  rw [firstHost, if_pos h]

theorem firstHost_of_lt {next : UInt8} (h : CoreId.second < next) : firstHost next = next := by
  rw [firstHost, if_neg (UInt8.not_le.2 h)]

/-- The first free number behind a host's is the next host's. -/
theorem firstHost_hostNumber_add_one (n : Nat) :
    firstHost (hostNumber n + 1) = hostNumber (n + 1) := by
  by_cases hlast : n % 254 = 253
  -- Behind the last number the counter wraps, and the two reserved numbers are left out.
  · have hwrap : hostNumber n + 1 = 0 := by
      rw [← UInt8.toNat_inj, UInt8.toNat_add, toNat_hostNumber, hlast]
      rfl
    have hfirst : hostNumber (n + 1) = 2 := by
      rw [← UInt8.toNat_inj, toNat_hostNumber]
      show 2 + (n + 1) % 254 = 2
      omega
    rw [hwrap, hfirst, firstHost_of_reserved (by decide), firstHost_of_reserved (by decide)]
    exact firstHost_of_lt (by decide)
  · have hnext : hostNumber n + 1 = hostNumber (n + 1) := by
      rw [← UInt8.toNat_inj, UInt8.toNat_add, toNat_hostNumber, toNat_hostNumber]
      show (2 + n % 254 + 1) % 256 = 2 + (n + 1) % 254
      omega
    rw [hnext, firstHost_of_lt (second_lt_hostNumber _)]

/-! ## Searches -/

section Search

variable {c : CoreNumbers} {thread : Nat} {core : CoreId}

/-- One try of a thread. A thread without a number takes what the counter shows and moves it on, and
keeps what it took unless it is reserved. A thread with a number leaves the counter alone. -/
def attempt (c : CoreNumbers) (thread : Nat) : CoreNumbers :=
  match c.assigned.lookup thread with
  | some _ => c
  | none =>
    if c.next ≤ CoreId.second then { c with next := c.next + 1 }
    else ⟨c.next + 1, (thread, c.next) :: c.assigned⟩

theorem attempt_of_some (h : c.assigned.lookup thread = some core) : c.attempt thread = c := by
  rw [attempt, h]

theorem attempt_of_reserved (h : c.assigned.lookup thread = none) (hnext : c.next ≤ CoreId.second) :
    c.attempt thread = { c with next := c.next + 1 } := by
  rw [attempt, h]
  exact if_pos hnext

theorem attempt_of_free (h : c.assigned.lookup thread = none) (hnext : CoreId.second < c.next) :
    c.attempt thread = ⟨c.next + 1, (thread, c.next) :: c.assigned⟩ := by
  rw [attempt, h]
  exact if_neg (UInt8.not_le.2 hnext)

/-- A thread that asks for the first time gets the first free number. -/
theorem number_of_none (h : c.assigned.lookup thread = none) :
    c.number thread = (firstHost c.next,
      ⟨firstHost c.next + 1, (thread, firstHost c.next) :: c.assigned⟩) := by
  rw [number, h]

/-- A try never takes a number away. -/
theorem lookup_attempt (h : c.assigned.lookup thread = some core) (other : Nat) :
    (c.attempt other).assigned.lookup thread = some core := by
  cases hother : c.assigned.lookup other with
  | some _ => rw [attempt_of_some hother, h]
  | none =>
    by_cases hnext : c.next ≤ CoreId.second
    · rw [attempt_of_reserved hother hnext, h]
    · have hne : (thread == other) = false := by
        rw [beq_eq_false_iff_ne]
        rintro rfl
        rw [hother] at h
        cases h
      rw [attempt_of_free hother (UInt8.not_le.1 hnext), List.lookup_cons, hne]
      exact h

theorem lookup_eq_none_of_attempt {other : Nat}
    (h : (c.attempt other).assigned.lookup thread = none) : c.assigned.lookup thread = none := by
  cases hthread : c.assigned.lookup thread with
  | some core => rw [lookup_attempt hthread] at h; cases h
  | none => rfl

/-- A search goes on from where a try of its own has left the counter. -/
theorem number_attempt (c : CoreNumbers) (thread : Nat) :
    (c.attempt thread).number thread = c.number thread := by
  cases h : c.assigned.lookup thread with
  | some _ => rw [attempt_of_some h]
  | none =>
    by_cases hnext : c.next ≤ CoreId.second
    · have hmoved : (c.attempt thread).assigned.lookup thread = none := by
        rw [attempt_of_reserved h hnext, h]
      rw [number_of_none hmoved, number_of_none h, attempt_of_reserved h hnext,
        firstHost_of_reserved hnext]
    · have hfree := UInt8.not_le.1 hnext
      rw [attempt_of_free h hfree, number_assigned List.lookup_cons_self, number_of_none h,
        firstHost_of_lt hfree]

/-- A try fails on a reserved number only, and moves the counter past it. -/
theorem attempt_of_failed (h : (c.attempt thread).assigned.lookup thread = none) :
    c.next ≤ CoreId.second ∧ (c.attempt thread).next = c.next + 1 := by
  have hthread := lookup_eq_none_of_attempt h
  by_cases hnext : c.next ≤ CoreId.second
  · exact ⟨hnext, by rw [attempt_of_reserved hthread hnext]⟩
  · rw [attempt_of_free hthread (UInt8.not_le.1 hnext), List.lookup_cons_self] at h
    cases h

/-- The state after tries of threads in any order. -/
def tries (c : CoreNumbers) (threads : List Nat) : CoreNumbers := threads.foldl attempt c

/-- Three tries in a row get a thread its number. -/
theorem exists_number_of_three (c : CoreNumbers) (thread : Nat) :
    ∃ core, (c.tries [thread, thread, thread]).assigned.lookup thread = some core := by
  rw [← Option.ne_none_iff_exists']
  intro hthird
  -- Who has no number in the end had none before.
  have hsecond := lookup_eq_none_of_attempt hthird
  have hfirst := lookup_eq_none_of_attempt hsecond
  obtain ⟨hreserved₁, hnext₁⟩ := attempt_of_failed hfirst
  obtain ⟨hreserved₂, hnext₂⟩ := attempt_of_failed hsecond
  obtain ⟨hreserved₃, -⟩ := attempt_of_failed hthird
  -- No three numbers in a row are reserved.
  rw [hnext₁] at hreserved₂
  rw [hnext₂, hnext₁] at hreserved₃
  simp only [CoreId.second, UInt8.le_iff_toNat_le, UInt8.toNat_add, UInt8.toNat_one] at *
  omega

/-- A search that nobody disturbs ends after three tries at most, with the number and in the state
that it answers. -/
theorem number_eq_tries (c : CoreNumbers) (thread : Nat) :
    ∃ core, (c.tries [thread, thread, thread]).assigned.lookup thread = some core ∧
      c.number thread = (core, c.tries [thread, thread, thread]) := by
  obtain ⟨core, hcore⟩ := exists_number_of_three c thread
  have hsame : (c.tries [thread, thread, thread]).number thread = c.number thread := by
    rw [tries, List.foldl_cons, List.foldl_cons, List.foldl_cons, List.foldl_nil, number_attempt,
      number_attempt, number_attempt]
  exact ⟨core, hcore, by rw [← hsame, number_assigned hcore]⟩

/-- How many tries of a run take a number off the counter: those of threads that have none. -/
def fetches (c : CoreNumbers) : List Nat → Nat
  | [] => 0
  | thread :: rest =>
    (if (c.assigned.lookup thread).isSome then 0 else 1) + (c.attempt thread).fetches rest

theorem fetches_cons (c : CoreNumbers) (thread : Nat) (rest : List Nat) :
    c.fetches (thread :: rest) = c.fetches [thread] + (c.attempt thread).fetches rest := rfl

theorem fetches_of_some (h : c.assigned.lookup thread = some core) : c.fetches [thread] = 0 := by
  rw [fetches, h]
  rfl

theorem fetches_of_none (h : c.assigned.lookup thread = none) : c.fetches [thread] = 1 := by
  rw [fetches, h]
  rfl

end Search

/-! ## Threads in the order in which they are served -/

/-- The numbers handed out to threads in order, the latest first, before the numbers of their own
that some threads have. -/
def handedOut (own : List (Nat × CoreId)) (order : List Nat) : List (Nat × CoreId) :=
  (order.mapIdx fun n thread => (thread, hostNumber n)).reverse ++ own

theorem handedOut_concat (own : List (Nat × CoreId)) (order : List Nat) (thread : Nat) :
    handedOut own (order ++ [thread]) =
      (thread, hostNumber order.length) :: handedOut own order := by
  rw [handedOut, List.mapIdx_concat, List.reverse_append]
  rfl

/-- The number of a thread: its own, or that of its place in the order. -/
def numberIn (own : List (Nat × CoreId)) (order : List Nat) (thread : Nat) : CoreId :=
  (own.lookup thread).getD (hostNumber (order.idxOf thread))

/-- The counter has served the threads of a list in this order, and nobody with a number of its
own. -/
structure Served (own : List (Nat × CoreId)) (order : List Nat) (c : CoreNumbers) : Prop where
  /-- No thread has been served twice. -/
  nodup : order.Nodup
  /-- No thread with a number of its own has been served. -/
  own_eq_none : ∀ thread ∈ order, own.lookup thread = none
  /-- The numbers have been handed out in order. -/
  assigned : c.assigned = handedOut own order
  /-- The next thread gets the number of the next place. -/
  next : firstHost c.next = hostNumber order.length

/-- The numbers that come off the counter until so many threads have been served: one for each, and
the two reserved ones for each round. -/
def needed (served : Nat) : Nat := served + 2 * (served / 254)

/-- The reserved numbers that the counter shows before the next free one. -/
def reservedAhead (c : CoreNumbers) : Nat := 2 - c.next.toNat

/-- No host thread has asked. Some threads have numbers of their own, which they are given before
they can ask: the one that runs the frames, and the second core. -/
def reservedFor (own : List (Nat × CoreId)) : CoreNumbers := { initial with assigned := own }

section Served

variable {own : List (Nat × CoreId)} {order : List Nat} {c : CoreNumbers} {thread : Nat}

theorem served_nil (own : List (Nat × CoreId)) : Served own [] (reservedFor own) :=
  ⟨.nil, fun _ h => absurd h List.not_mem_nil, rfl,
    firstHost_of_lt (by decide : CoreId.second < (2 : UInt8))⟩

/-- A thread has a number exactly if it has been served or has one of its own. -/
theorem lookup_handedOut (hnodup : order.Nodup) (hown : ∀ t ∈ order, own.lookup t = none)
    (thread : Nat) :
    (handedOut own order).lookup thread =
      if thread ∈ order then some (numberIn own order thread) else own.lookup thread := by
  induction order using List.reverseRecOn with
  | nil => rfl
  | append_singleton order last ih =>
    obtain ⟨hnodup, -, hdisjoint⟩ := List.nodup_append.1 hnodup
    have hlast : last ∉ order := fun h => hdisjoint last h last (List.mem_singleton_self _) rfl
    have ih := ih hnodup fun t ht => hown t (List.mem_append_left _ ht)
    rw [handedOut_concat, List.lookup_cons]
    by_cases hthread : thread = last
    · subst hthread
      have hmem : thread ∈ order ++ [thread] := List.mem_append_right _ (List.mem_singleton_self _)
      rw [beq_self_eq_true, if_pos hmem, numberIn, hown thread hmem, Option.getD_none,
        List.idxOf_append, if_neg hlast, List.idxOf_cons_self, Nat.zero_add]
    · rw [beq_false_of_ne hthread]
      have hmem : thread ∈ order ++ [last] ↔ thread ∈ order := by
        rw [List.mem_append, List.mem_singleton, or_iff_left hthread]
      refine ih.trans (ite_congr (propext hmem.symm) (fun h => ?_) fun _ => rfl)
      rw [numberIn, numberIn, List.idxOf_append_of_mem (hmem.1 h)]

namespace Served

theorem lookup_eq (h : Served own order c) (thread : Nat) :
    c.assigned.lookup thread =
      if thread ∈ order then some (numberIn own order thread) else own.lookup thread := by
  rw [h.assigned, lookup_handedOut h.nodup h.own_eq_none]

theorem lookup_eq_none_iff (h : Served own order c) :
    c.assigned.lookup thread = none ↔ own.lookup thread = none ∧ thread ∉ order := by
  rw [h.lookup_eq]
  by_cases hmem : thread ∈ order <;> simp [hmem]

/-- A thread that has a number has that of its place. -/
theorem lookup_eq_some (h : Served own order c) {core : CoreId}
    (hcore : c.assigned.lookup thread = some core) : numberIn own order thread = core := by
  rw [h.lookup_eq] at hcore
  split at hcore
  · exact Option.some.inj hcore
  · rw [numberIn, hcore, Option.getD_some]

/-- A thread that takes the first free number is served next. -/
theorem concat (h : Served own order c) (hnone : c.assigned.lookup thread = none) :
    Served own (order ++ [thread])
      ⟨firstHost c.next + 1, (thread, firstHost c.next) :: c.assigned⟩ := by
  obtain ⟨hown, hnew⟩ := h.lookup_eq_none_iff.1 hnone
  refine ⟨?_, ?_, ?_, ?_⟩
  · exact List.nodup_append.2 ⟨h.nodup, List.nodup_singleton _, fun a ha b hb hab =>
      hnew (List.mem_singleton.1 hb ▸ hab ▸ ha)⟩
  · intro t ht
    rcases List.mem_append.1 ht with hmem | hlast
    · exact h.own_eq_none t hmem
    · rw [List.mem_singleton.1 hlast, hown]
  · rw [handedOut_concat, h.assigned, h.next]
  · rw [h.next, firstHost_hostNumber_add_one, List.length_append, List.length_singleton]

/-- A try serves the thread next or serves nobody. What it takes off the counter, with the reserved
numbers ahead, makes up what is needed for the threads served. -/
theorem exists_try (h : Served own order c) (thread : Nat) :
    ∃ more, Served own (order ++ more) (c.attempt thread) ∧ (∀ t ∈ more, t = thread) ∧
      c.fetches [thread] + needed order.length + (c.attempt thread).reservedAhead =
        needed (order ++ more).length + c.reservedAhead := by
  cases hthread : c.assigned.lookup thread with
  | some core =>
    rw [attempt_of_some hthread, fetches_of_some hthread, Nat.zero_add]
    exact ⟨[], by rwa [List.append_nil], fun t ht => absurd ht List.not_mem_nil,
      by rw [List.append_nil]⟩
  | none =>
    by_cases hnext : c.next ≤ CoreId.second
    · rw [attempt_of_reserved hthread hnext, fetches_of_none hthread]
      refine ⟨[], ?_, fun t ht => absurd ht List.not_mem_nil, ?_⟩
      · rw [List.append_nil]
        exact ⟨h.nodup, h.own_eq_none, h.assigned, (firstHost_of_reserved hnext).symm.trans h.next⟩
      · rw [List.append_nil, reservedAhead, reservedAhead]
        simp only [CoreId.second, UInt8.le_iff_toNat_le, UInt8.toNat_add, UInt8.toNat_one] at *
        omega
    · have hfree := UInt8.not_le.1 hnext
      have hserved := h.concat hthread
      have hnumber : c.next = hostNumber order.length := (firstHost_of_lt hfree).symm.trans h.next
      rw [firstHost_of_lt hfree] at hserved
      rw [attempt_of_free hthread hfree, fetches_of_none hthread]
      refine ⟨[thread], hserved, fun t ht => List.mem_singleton.1 ht, ?_⟩
      -- Two more numbers are needed exactly when the counter wraps.
      rw [reservedAhead, reservedAhead, hnumber, List.length_append, List.length_singleton, needed,
        needed, UInt8.toNat_add, toNat_hostNumber, UInt8.toNat_one]
      omega

/-- Tries of threads in any order serve some of these threads, behind those served before. -/
theorem exists_tries (h : Served own order c) (threads : List Nat) :
    ∃ more, Served own (order ++ more) (c.tries threads) ∧ (∀ t ∈ more, t ∈ threads) ∧
      c.fetches threads + needed order.length + (c.tries threads).reservedAhead =
        needed (order ++ more).length + c.reservedAhead := by
  induction threads generalizing order c with
  | nil =>
    refine ⟨[], by rwa [List.append_nil], fun t ht => ht, ?_⟩
    rw [List.append_nil, fetches, Nat.zero_add]
    rfl
  | cons thread rest ih =>
    obtain ⟨first, hfirst, hthread, hcount⟩ := h.exists_try thread
    obtain ⟨more, hmore, hrest, hcounts⟩ := ih hfirst
    rw [List.append_assoc] at hmore hcounts
    refine ⟨first ++ more, hmore, fun t ht => ?_, ?_⟩
    · rcases List.mem_append.1 ht with hmem | hmem
      · exact hthread t hmem ▸ List.mem_cons_self
      · exact List.mem_cons_of_mem _ (hrest t hmem)
    · rw [fetches_cons]
      show _ + ((c.attempt thread).tries rest).reservedAhead = _
      omega

end Served

/-! ## Threads that ask one after the other -/

/-- The threads that need a number, in the order in which they first ask. -/
def arrivals (own : List (Nat × CoreId)) (asks : List Nat) : List Nat :=
  (asks.filter fun thread => (own.lookup thread).isNone).eraseDups

theorem mem_arrivals {asks : List Nat} :
    thread ∈ arrivals own asks ↔ thread ∈ asks ∧ own.lookup thread = none := by
  rw [arrivals, List.mem_eraseDups, List.mem_filter, Option.isNone_iff_eq_none]

theorem arrivals_append (own : List (Nat × CoreId)) (earlier later : List Nat) :
    ∃ more, arrivals own (earlier ++ later) = arrivals own earlier ++ more := by
  rw [arrivals, List.filter_append, List.eraseDups_append]
  exact ⟨_, rfl⟩

/-- The first ask of a thread without a number adds it to the arrivals. -/
theorem arrivals_concat_of_new {asks : List Nat} (hown : own.lookup thread = none)
    (hnew : thread ∉ arrivals own asks) :
    arrivals own (asks ++ [thread]) = arrivals own asks ++ [thread] := by
  rw [arrivals, List.mem_eraseDups] at hnew
  rw [arrivals, arrivals, List.filter_append, List.eraseDups_append]
  simp [List.removeAll, List.eraseDups_cons, hown, hnew]

/-- Any other ask adds nothing. -/
theorem arrivals_concat_of_old {asks : List Nat}
    (h : ¬ (own.lookup thread = none ∧ thread ∉ arrivals own asks)) :
    arrivals own (asks ++ [thread]) = arrivals own asks := by
  rw [arrivals, List.mem_eraseDups] at h
  rw [arrivals, arrivals, List.filter_append, List.eraseDups_append]
  by_cases hown : own.lookup thread = none
  · have hold := not_not.1 fun hnew => h ⟨hown, hnew⟩
    simp [List.removeAll, hown, hold]
  · simp [List.removeAll, hown]

/-- The number of a thread is settled when it has been served. -/
theorem numberIn_append (h : own.lookup thread ≠ none ∨ thread ∈ order) (more : List Nat) :
    numberIn own (order ++ more) thread = numberIn own order thread := by
  cases hown : own.lookup thread with
  | some core => rw [numberIn, numberIn, hown, Option.getD_some, Option.getD_some]
  | none =>
    have hmem : thread ∈ order := h.resolve_left fun hsome => hsome hown
    rw [numberIn, numberIn, List.idxOf_append_of_mem hmem]

/-- An ask is answered by the number of the thread's place. -/
theorem Served.number {done : List Nat} (h : Served own (arrivals own done) c) (thread : Nat) :
    Served own (arrivals own (done ++ [thread])) (c.number thread).2 ∧
      (c.number thread).1 = numberIn own (arrivals own (done ++ [thread])) thread := by
  cases hthread : c.assigned.lookup thread with
  | some core =>
    have hold : ¬ (own.lookup thread = none ∧ thread ∉ arrivals own done) := by
      rw [← h.lookup_eq_none_iff, hthread]
      exact Option.some_ne_none core
    rw [arrivals_concat_of_old hold, number_assigned hthread]
    exact ⟨h, (h.lookup_eq_some hthread).symm⟩
  | none =>
    obtain ⟨hown, hnew⟩ := h.lookup_eq_none_iff.1 hthread
    have hserved := h.concat hthread
    rw [arrivals_concat_of_new hown hnew, number_of_none hthread]
    exact ⟨hserved, (hserved.lookup_eq_some List.lookup_cons_self).symm⟩

theorem numbers_cons (c : CoreNumbers) (thread : Nat) (rest : List Nat) :
    c.numbers (thread :: rest) =
      ((c.number thread).1 :: ((c.number thread).2.numbers rest).1,
        ((c.number thread).2.numbers rest).2) := rfl

/-- Asks in a row are answered by the numbers of the threads' places. -/
theorem numbers_of_served {done : List Nat} (h : Served own (arrivals own done) c)
    (asks : List Nat) :
    Served own (arrivals own (done ++ asks)) (c.numbers asks).2 ∧
      (c.numbers asks).1 = asks.map (numberIn own (arrivals own (done ++ asks))) := by
  induction asks generalizing done c with
  | nil => exact ⟨(List.append_nil done).symm ▸ h, rfl⟩
  | cons thread rest ih =>
    obtain ⟨hserved, hcore⟩ := h.number thread
    obtain ⟨hrest, hcores⟩ := ih hserved
    obtain ⟨more, hmore⟩ := arrivals_append own (done ++ [thread]) rest
    have hsettled : own.lookup thread ≠ none ∨ thread ∈ arrivals own (done ++ [thread]) := by
      rw [mem_arrivals]
      by_cases hown : own.lookup thread = none
      · exact .inr ⟨List.mem_append_right _ (List.mem_singleton_self _), hown⟩
      · exact .inl hown
    rw [List.append_cons, numbers_cons, List.map_cons]
    refine ⟨hrest, List.cons_eq_cons.2 ⟨?_, hcores⟩⟩
    rw [hcore, hmore, numberIn_append hsettled]

end Served

/-- Whatever numbers of their own some threads have. Of threads that ask in a row, any of them any
number of times, every one is answered each time by its own number, or else by the number of its
place among those that first asked. The number of the `n`-th place is two more than the remainder
of `n` by 254, so it is never a reserved one, and no two of 254 places in a row have the same. A
search ends in any state of the counter, after three tries at most. Where tries of several threads
are interleaved, the numbers still go out in order to one thread after the other, and all searches
end: beside one try for each thread that is served, no more than two fail for every 254 of them. -/
theorem host_numbers_go_round (own : List (Nat × CoreId)) :
    (∀ asks : List Nat,
        let order := arrivals own asks
        (order.Nodup ∧ ∀ thread, thread ∈ order ↔ thread ∈ asks ∧ own.lookup thread = none) ∧
          ((reservedFor own).numbers asks).1 = asks.map (numberIn own order) ∧
          (∀ n thread, order[n]? = some thread → numberIn own order thread = hostNumber n) ∧
          ∀ thread core, own.lookup thread = some core → numberIn own order thread = core) ∧
      (∀ n, (hostNumber n).toNat = 2 + n % 254 ∧ hostNumber n ≠ .frames ∧ hostNumber n ≠ .second) ∧
      (∀ m n, m < n → n < m + 254 → hostNumber m ≠ hostNumber n) ∧
      (∀ (c : CoreNumbers) (thread : Nat), ∃ core,
        (c.tries [thread, thread, thread]).assigned.lookup thread = some core ∧
          c.number thread = (core, c.tries [thread, thread, thread])) ∧
      ∀ threads : List Nat, ∃ order : List Nat, order.Nodup ∧
        (∀ thread ∈ order, thread ∈ threads ∧ own.lookup thread = none) ∧
        ((reservedFor own).tries threads).assigned = handedOut own order ∧
        (reservedFor own).fetches threads ≤ order.length + 2 * (order.length / 254) := by
  refine ⟨fun asks => ?_, fun n => ⟨toNat_hostNumber n, ?_, ?_⟩, fun m n hlt hnear heq => ?_,
    number_eq_tries, fun threads => ?_⟩
  · intro order
    have hstart : Served own (arrivals own []) (reservedFor own) := served_nil own
    obtain ⟨hserved, hcores⟩ := numbers_of_served hstart asks
    refine ⟨⟨hserved.nodup, fun thread => mem_arrivals⟩, hcores, fun n thread hn => ?_,
      fun thread core hcore => by rw [numberIn, hcore, Option.getD_some]⟩
    obtain ⟨hlt, rfl⟩ := List.getElem?_eq_some_iff.1 hn
    have hown := (mem_arrivals.1 (List.getElem_mem hlt)).2
    have hplace : order.idxOf order[n] = n := hserved.nodup.idxOf_getElem n hlt
    rw [numberIn, hown, Option.getD_none, hplace]
  · exact (UInt8.ne_of_lt (UInt8.lt_trans (by decide) (second_lt_hostNumber n))).symm
  · exact (UInt8.ne_of_lt (second_lt_hostNumber n)).symm
  · rw [hostNumber_eq_iff] at heq
    omega
  · obtain ⟨order, hserved, hmem, hcount⟩ := (served_nil own).exists_tries threads
    rw [List.nil_append] at hserved hcount
    refine ⟨order, hserved.nodup, fun t ht => ⟨hmem t ht, hserved.own_eq_none t ht⟩,
      hserved.assigned, ?_⟩
    -- At the start no number is needed, and none that is reserved is ahead.
    have hnone : needed 0 = 0 := rfl
    have hstart : (reservedFor own).reservedAhead = 0 := rfl
    rw [List.length_nil, hnone, hstart] at hcount
    have hbound : (reservedFor own).fetches threads ≤ needed order.length := by omega
    exact hbound

/-- Asks of three threads of the host, one of which asks again, and of the two threads with numbers
of their own. The last number before the counter wraps is 255, and 2 comes behind it. -/
theorem numbers_of_six_asks :
    ((reservedFor [(0, .frames), (1, .second)]).numbers [7, 0, 8, 7, 1, 9]).1 =
        [2, 0, 3, 2, 1, 4] ∧
      hostNumber 253 = 255 ∧ hostNumber 254 = 2 ∧ hostNumber 0 ≠ hostNumber 253 := by
  obtain ⟨hasks, -, hdifferent, -⟩ := host_numbers_go_round [(0, .frames), (1, .second)]
  obtain ⟨-, hcores, -⟩ := hasks [7, 0, 8, 7, 1, 9]
  exact ⟨hcores.trans (by decide), by decide, by decide, hdifferent 0 253 (by decide) (by decide)⟩

end Handheld.CoreNumbers
