import Mathlib.Data.Nat.Basic
import Mathlib.Tactic.Ring

/-!
The natural numbers among the doubles, and their decimals. A number is read as the
double nearest to it, a tie as the one with the even significand. A double is written
with the fewest decimal digits that are read as it again, and zeros for the rest.
-/

namespace Doubles

/-- The multiple of `unit` nearest to a number; a tie goes to the even multiple. -/
def round (unit n : ℕ) : ℕ :=
  if 2 * (n % unit) < unit ∨ 2 * (n % unit) = unit ∧ n / unit % 2 = 0 then n / unit * unit
  else (n / unit + 1) * unit

/-- The distance between the doubles around a number: a significand has 53 bits. -/
def unit (n : ℕ) : ℕ := 2 ^ (n.log2 - 52)

/-- The double a number is read as. -/
def nearest (n : ℕ) : ℕ := round (unit n) n

def IsDouble (n : ℕ) : Prop := nearest n = n

instance (n : ℕ) : Decidable (IsDouble n) := inferInstanceAs (Decidable (_ = _))

section Round

variable {unit n m k : ℕ}

theorem round_le_mul (hunit : 0 < unit) (h : n ≤ k * unit) : round unit n ≤ k * unit := by
  unfold round
  split
  · exact (Nat.div_mul_le_self n unit).trans h
  · rename_i hup
    have hsplit := Nat.div_add_mod' n unit
    have hrest : n % unit ≠ 0 := by
      intro hzero
      rw [hzero, Nat.mul_zero] at hup
      omega
    have hbelow : n / unit * unit < k * unit := by omega
    exact Nat.mul_le_mul_right _ (Nat.lt_of_mul_lt_mul_right hbelow)

theorem mul_le_round (hunit : 0 < unit) (h : k * unit ≤ n) : k * unit ≤ round unit n := by
  have hbelow : k * unit ≤ n / unit * unit :=
    Nat.mul_le_mul_right _ ((Nat.le_div_iff_mul_le hunit).mpr h)
  unfold round
  split
  · exact hbelow
  · exact hbelow.trans (Nat.mul_le_mul_right _ (Nat.le_succ _))

theorem round_mono (hunit : 0 < unit) (h : n ≤ m) : round unit n ≤ round unit m := by
  rcases (Nat.div_le_div_right (c := unit) h).eq_or_lt with hsame | hless
  · have hn := Nat.div_add_mod' n unit
    have hm := Nat.div_add_mod' m unit
    rw [hsame] at hn
    have hrest : n % unit ≤ m % unit := by omega
    unfold round
    rw [hsame]
    split
    · split
      · exact Nat.le_refl _
      · exact Nat.mul_le_mul_right _ (Nat.le_succ _)
    · rename_i hup
      rw [if_neg]
      omega
  · have habove : n ≤ (n / unit + 1) * unit := by
      have := Nat.lt_div_mul_add hunit (a := n)
      rw [Nat.add_mul]
      omega
    calc round unit n ≤ (n / unit + 1) * unit := round_le_mul hunit habove
      _ ≤ m / unit * unit := Nat.mul_le_mul_right _ hless
      _ ≤ round unit m := mul_le_round hunit (Nat.div_mul_le_self m unit)

theorem round_one (n : ℕ) : round 1 n = n := by
  simp [round, Nat.mod_one]

end Round

theorem unit_pos (n : ℕ) : 0 < unit n := Nat.two_pow_pos _

/-- A power of two from the bits of a number on is a multiple of its unit. -/
theorem pow_eq_mul_unit {n power : ℕ} (h : n.log2 ≤ power) :
    2 ^ power = 2 ^ (power - (n.log2 - 52)) * unit n := by
  rw [unit, ← Nat.pow_add]
  congr 1
  omega

theorem nearest_le_pow {n power : ℕ} (hbits : n.log2 ≤ power) (h : n ≤ 2 ^ power) :
    nearest n ≤ 2 ^ power := by
  rw [pow_eq_mul_unit hbits] at h ⊢
  exact round_le_mul (unit_pos n) h

theorem pow_le_nearest {n power : ℕ} (hbits : n.log2 ≤ power) (h : 2 ^ power ≤ n) :
    2 ^ power ≤ nearest n := by
  rw [pow_eq_mul_unit hbits] at h ⊢
  exact mul_le_round (unit_pos n) h

/-- The doubles around two numbers are the same, or a power of two lies between them. -/
theorem nearest_mono {n m : ℕ} (h : n ≤ m) : nearest n ≤ nearest m := by
  rcases Nat.eq_zero_or_pos n with rfl | hpos
  · exact Nat.zero_le _
  · have hm : m ≠ 0 := by omega
    have hbits : n.log2 ≤ m.log2 :=
      (Nat.le_log2 hm).mpr ((Nat.log2_self_le hpos.ne').trans h)
    rcases hbits.eq_or_lt with hsame | hless
    · have hunit : unit n = unit m := by rw [unit, unit, hsame]
      rw [nearest, nearest, hunit]
      exact round_mono (unit_pos m) h
    · have hbelow : n ≤ 2 ^ m.log2 :=
        Nat.lt_log2_self.le.trans (Nat.pow_le_pow_right (by omega) hless)
      exact (nearest_le_pow hbits hbelow).trans
        (pow_le_nearest le_rfl (Nat.log2_self_le hm))

theorem round_mul {unit : ℕ} (hunit : 0 < unit) (k : ℕ) : round unit (k * unit) = k * unit :=
  le_antisymm (round_le_mul hunit le_rfl) (mul_le_round hunit le_rfl)

theorem isDouble_pow (power : ℕ) : IsDouble (2 ^ power) := by
  have hbits : (2 ^ power).log2 ≤ power := (Nat.log2_two_pow).le
  exact le_antisymm (nearest_le_pow hbits le_rfl) (pow_le_nearest hbits le_rfl)

/-- What a number is read as is a double: a multiple of the same unit, or the power of two
above. -/
theorem isDouble_nearest (n : ℕ) : IsDouble (nearest n) := by
  rcases Nat.eq_zero_or_pos n with rfl | hpos
  · rfl
  · have hlow : 2 ^ n.log2 ≤ nearest n := pow_le_nearest le_rfl (Nat.log2_self_le hpos.ne')
    have hhigh : nearest n ≤ 2 ^ (n.log2 + 1) :=
      nearest_le_pow (Nat.le_succ _) Nat.lt_log2_self.le
    rcases hhigh.eq_or_lt with hpower | hbelow
    · rw [hpower]
      exact isDouble_pow _
    · have hne : nearest n ≠ 0 := by
        have := Nat.two_pow_pos n.log2
        omega
      have hbits : (nearest n).log2 = n.log2 :=
        Nat.le_antisymm (Nat.lt_succ_iff.mp ((Nat.log2_lt hne).mpr hbelow))
          ((Nat.le_log2 hne).mpr hlow)
      have hunit : unit (nearest n) = unit n := by rw [unit, unit, hbits]
      have hmultiple : ∃ k, nearest n = k * unit n := by
        unfold nearest round
        split
        · exact ⟨_, rfl⟩
        · exact ⟨_, rfl⟩
      obtain ⟨k, hk⟩ := hmultiple
      rw [IsDouble, nearest, hunit, hk, round_mul (unit_pos n)]

/-- Every number up to 53 bits is a double. -/
theorem isDouble_of_lt {n : ℕ} (h : n < 2 ^ 53) : IsDouble n := by
  have hunit : unit n = 1 := by
    rcases Nat.eq_zero_or_pos n with rfl | hpos
    · rfl
    · have hbits : n.log2 < 53 := (Nat.log2_lt hpos.ne').mpr h
      rw [unit, Nat.sub_eq_zero_of_le (by omega), Nat.pow_zero]
  rw [IsDouble, nearest, hunit, round_one]

/-- The multiple of `step` nearest to `x` among those that are read as `x`. -/
def decimal (step x : ℕ) : Option ℕ :=
  let below := x / step * step
  let above := below + step
  if nearest below = x ∧ (nearest above ≠ x ∨ x - below < above - x ∨
      x - below = above - x ∧ x / step % 2 = 0) then some below
  else if nearest above = x then some above else none

/-- The search for the most places that may be zeros. -/
def shortestFrom (x : ℕ) : ℕ → ℕ
  | 0 => x
  | places + 1 => (decimal (10 ^ (places + 1)) x).getD (shortestFrom x places)

/-- The decimal a double is written as. It has no more digits than bits. -/
def shortest (x : ℕ) : ℕ := shortestFrom x (x.log2 + 1)

theorem nearest_decimal {step x value : ℕ} (h : decimal step x = some value) :
    nearest value = x := by
  simp only [decimal] at h
  split at h
  · rename_i hbelow
    obtain rfl := Option.some.inj h
    exact hbelow.1
  · split at h
    · rename_i habove
      obtain rfl := Option.some.inj h
      exact habove
    · cases h

/-- A double is read as itself again. -/
theorem nearest_shortest {x : ℕ} (h : IsDouble x) : nearest (shortest x) = x := by
  unfold shortest
  induction x.log2 + 1 with
  | zero => exact h
  | succ places ih =>
      rw [shortestFrom]
      cases hdecimal : decimal (10 ^ (places + 1)) x with
      | none => exact ih
      | some value => exact nearest_decimal hdecimal

theorem shortest_injective {x y : ℕ} (hx : IsDouble x) (hy : IsDouble y)
    (h : shortest x = shortest y) : x = y := by
  rw [← nearest_shortest hx, h, nearest_shortest hy]

/-- The decimals of doubles are in their order. -/
theorem shortest_lt_iff {x y : ℕ} (hx : IsDouble x) (hy : IsDouble y) :
    shortest x < shortest y ↔ x < y := by
  constructor
  · intro hlt
    have hle := nearest_mono hlt.le
    rw [nearest_shortest hx, nearest_shortest hy] at hle
    refine lt_of_le_of_ne hle ?_
    rintro rfl
    exact hlt.ne rfl
  · intro hlt
    by_contra hnot
    have hle := nearest_mono (not_lt.mp hnot)
    rw [nearest_shortest hx, nearest_shortest hy] at hle
    omega

/-- A double below another is written below it. -/
theorem shortest_lt {x bound : ℕ} (hx : IsDouble x) (hbound : IsDouble bound) (h : x < bound) :
    shortest x < bound := by
  by_contra hnot
  have hle := nearest_mono (not_lt.mp hnot)
  rw [nearest_shortest hx, hbound] at hle
  omega

/-- And one that needs no rounding is written as it is. -/
theorem shortest_of_lt {x : ℕ} (h : x < 2 ^ 53) : shortest x = x := by
  have hx := isDouble_of_lt h
  have hwritten : IsDouble (shortest x) :=
    isDouble_of_lt (shortest_lt hx (by decide) h)
  rw [← hwritten, nearest_shortest hx]

/-- A bound that is not written below itself bounds the decimals as it does the doubles. -/
theorem shortest_lt_bound_iff {x bound : ℕ} (hx : IsDouble x) (hbound : IsDouble bound)
    (hwritten : bound ≤ shortest bound) : shortest x < bound ↔ x < bound := by
  refine ⟨fun hlt => ?_, shortest_lt hx hbound⟩
  by_contra hnot
  rcases (not_lt.mp hnot).eq_or_lt with rfl | hless
  · omega
  · have hmore := (shortest_lt_iff hbound hx).mpr hless
    omega

example : shortest (2 ^ 63) = 9223372036854776000 := by decide

end Doubles
