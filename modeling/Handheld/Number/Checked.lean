import Handheld.Panic

/-!
# Words

Arithmetic on integers that stops with a panic where the exact result is no signed 32-bit word, cuts
it to a word or holds it at the limits, and the addition of unsigned 64-bit words that stops where
the sum is no such word.

* `checked_eq_ok_iff`, `Word64.add_eq_ok_iff`: when an operation gives its exact result.
* `cast_of_fits`, `saturatingAdd_of_fits`: numbers that are words stay what they are.
-/

namespace Handheld

namespace Word32

/-- The least signed word. -/
def least : Int := -2147483648

/-- The greatest signed word. -/
def greatest : Int := 2147483647

/-- The integer is a signed word. -/
def Fits (n : Int) : Prop := least ≤ n ∧ n ≤ greatest

instance (n : Int) : Decidable (Fits n) := by
  unfold Fits
  infer_instance

/-- The exact result of an operation, if it is a signed word. -/
def checked (operation : Arithmetic) (n : Int) : Except Panic Int :=
  if Fits n then .ok n else .error (.overflow operation)

/-- Sum of two words. -/
def add (a b : Int) : Except Panic Int := checked .add (a + b)

/-- Difference of two words. -/
def sub (a b : Int) : Except Panic Int := checked .subtract (a - b)

/-- Product of two words. -/
def mul (a b : Int) : Except Panic Int := checked .multiply (a * b)

/-- Absolute value of a word. -/
def abs (a : Int) : Except Panic Int := if a < 0 then checked .negate (-a) else .ok a

/-- The word with the same lower 32 bits. -/
def cast (n : Int) : Int := n.bmod UInt32.size

/-- Sum of two words, held at the least and the greatest one. -/
def saturatingAdd (a b : Int) : Int := max least (min (a + b) greatest)

/-- A checked operation gives its exact result, and exactly if that is a word. -/
theorem checked_eq_ok_iff {operation : Arithmetic} {n m : Int} :
    checked operation n = .ok m ↔ Fits n ∧ n = m := by
  unfold checked
  split <;> simp_all

/-- A number that is a word is that word. -/
theorem cast_of_fits {n : Int} (h : Fits n) : cast n = n := by
  have hsize : UInt32.size = 4294967296 := rfl
  unfold Fits least greatest at h
  rw [cast, hsize]
  exact Int.bmod_eq_of_le (by omega) (by omega)

theorem fits_cast (n : Int) : Fits (cast n) := by
  have hsize : UInt32.size = 4294967296 := rfl
  have hleast : -((UInt32.size : Int) / 2) ≤ cast n := Int.le_bmod (by decide)
  have hgreatest : cast n < ((UInt32.size : Int) + 1) / 2 := Int.bmod_lt (by decide)
  rw [hsize] at hleast hgreatest
  unfold Fits least greatest
  omega

/-- A count is the word that it is cut to if it is a word, and is more if it is not. -/
theorem cast_natCast_cases (n : Nat) :
    cast n = n ∧ (n : Int) ≤ greatest ∨ cast n < n ∧ greatest < (n : Int) := by
  have hsize : UInt32.size = 4294967296 := rfl
  rw [cast, hsize, Int.bmod_def, greatest]
  split <;> omega

theorem cast_natCast_of_le {n : Nat} (h : (n : Int) ≤ greatest) : cast n = n := by
  rcases cast_natCast_cases n with ⟨heq, -⟩ | ⟨-, hgreater⟩
  · exact heq
  · exact absurd h (Int.not_le.2 hgreater)

theorem cast_natCast_le (n : Nat) : cast n ≤ n := by
  rcases cast_natCast_cases n with ⟨heq, -⟩ | ⟨hlt, -⟩
  · exact Int.le_of_eq heq
  · exact Int.le_of_lt hlt

/-- A sum that is a word is not held back. -/
theorem saturatingAdd_of_fits {a b : Int} (h : Fits (a + b)) : saturatingAdd a b = a + b := by
  unfold Fits at h
  unfold saturatingAdd
  omega

/-- The distance of two words is a word unless it is too large. The least word has no opposite. -/
theorem sub_bind_abs (a b : Int) :
    (sub a b >>= abs) =
      if (a - b).natAbs ≤ greatest then .ok ((a - b).natAbs : Int)
      else if a - b = least then .error (.overflow .negate)
      else .error (.overflow .subtract) := by
  unfold sub
  generalize a - b = n
  by_cases hn : Fits n
  · have hsub : checked .subtract n = .ok n := checked_eq_ok_iff.2 ⟨hn, rfl⟩
    have hleast : least ≤ (n.natAbs : Int) := by
      unfold least
      omega
    have habs : abs n = if (n.natAbs : Int) ≤ greatest then .ok (n.natAbs : Int)
        else .error (.overflow .negate) := by
      unfold abs
      split
      · have hnat : -n = n.natAbs := by omega
        rw [hnat, checked]
        simp only [Fits, hleast, true_and]
      · have hnat : (n.natAbs : Int) = n := by omega
        rw [hnat, if_pos hn.2]
    rw [hsub]
    refine habs.trans (ite_congr rfl (fun _ => rfl) fun hlarge => ?_)
    -- Only the least word is further from zero than the greatest.
    unfold Fits least greatest at *
    rw [if_pos (by omega)]
  · rw [checked, if_neg hn]
    unfold Fits least greatest at *
    rw [if_neg (by omega), if_neg (by omega)]
    rfl

end Word32

namespace Word64

/-- Sum of two words, if it is a word. -/
def add (a b : UInt64) : Except Panic UInt64 :=
  if a.toNat + b.toNat < UInt64.size then .ok (a + b) else .error (.overflow .add)

/-- A checked sum is exact, and there is one exactly if it is a word. -/
theorem add_eq_ok_iff {a b sum : UInt64} :
    add a b = .ok sum ↔ sum.toNat = a.toNat + b.toNat := by
  unfold add
  split
  · next hlt =>
    rw [Except.ok.injEq, ← UInt64.toNat_inj, UInt64.toNat_add, Nat.mod_eq_of_lt hlt]
    exact eq_comm
  · next hge =>
    have hword := sum.toNat_lt
    rw [UInt64.size] at hge
    simp only [reduceCtorEq, false_iff]
    omega

theorem add_eq_error_iff {a b : UInt64} {p : Panic} :
    add a b = .error p ↔ UInt64.size ≤ a.toNat + b.toNat ∧ p = .overflow .add := by
  unfold add
  split
  · simp
    omega
  · simp_all [eq_comm]

end Word64

end Handheld
