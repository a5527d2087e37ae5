import Mathlib.Data.List.Lex
import Mathlib.Data.Nat.Digits.Defs

/-!
Numerals of a fixed width. Padded with zeros to a width they fit in, the digits of
two numbers compare as the numbers do, and so do their characters in a base of at most
sixteen. Fields of fixed width written one after the other compare field by field.
-/

namespace Numerals

/-- The last `width` digits of a number, the most significant first. -/
def fixed (base : Nat) : Nat → Nat → List Nat
  | 0, _ => []
  | width + 1, n => fixed base width (n / base) ++ [n % base]

@[simp] theorem fixed_length (base width n : Nat) : (fixed base width n).length = width := by
  induction width generalizing n with
  | zero => rfl
  | succ width ih => simp [fixed, ih]

theorem fixed_lt_base {base width n digit : Nat} (hbase : 0 < base)
    (hmem : digit ∈ fixed base width n) : digit < base := by
  induction width generalizing n with
  | zero => simp [fixed] at hmem
  | succ width ih =>
      simp only [fixed, List.mem_append, List.mem_singleton] at hmem
      rcases hmem with hfirst | rfl
      · exact ih hfirst
      · exact Nat.mod_lt n hbase

/-- What keeps the order both ways keeps equality. -/
theorem eq_iff_eq_of_lt_iff_lt {α β : Type*} [LinearOrder α] [LinearOrder β] {a b : α} {x y : β}
    (hlt : a < b ↔ x < y) (hgt : b < a ↔ y < x) : a = b ↔ x = y := by
  rw [le_antisymm_iff, le_antisymm_iff, ← not_lt, ← not_lt, hlt, hgt, not_lt, not_lt]

/-- Lists that start with fields of one length compare by those fields, then by what
follows. -/
theorem append_lt_append_iff {α : Type*} [LinearOrder α] {field field' rest rest' : List α}
    (hlen : field.length = field'.length) :
    field ++ rest < field' ++ rest' ↔ field < field' ∨ field = field' ∧ rest < rest' := by
  induction field generalizing field' with
  | nil =>
      obtain rfl : field' = [] := List.length_eq_zero_iff.mp hlen.symm
      simp
  | cons first others ih =>
      cases field' with
      | nil => simp at hlen
      | cons first' others' =>
          have htail := ih (Nat.succ_injective hlen)
          simp only [List.cons_append, List.cons_lt_cons_iff, htail, List.cons.injEq]
          tauto

theorem div_lt_pow {base width n : Nat} (hbase : 0 < base) (hn : n < base ^ (width + 1)) :
    n / base < base ^ width := by
  rw [Nat.div_lt_iff_lt_mul hbase]
  exact hn

/-- Numbers compare by all their digits but the last, then by the last. -/
theorem lt_iff_div_mod {base : Nat} (hbase : 0 < base) (n m : Nat) :
    n < m ↔ n / base < m / base ∨ n / base = m / base ∧ n % base < m % base := by
  have hsplit := Nat.div_add_mod n base
  have hsplit' := Nat.div_add_mod m base
  have hmod := Nat.mod_lt n hbase
  have hmod' := Nat.mod_lt m hbase
  rcases lt_trichotomy (n / base) (m / base) with hless | heq | hmore
  · have hstep : base * (n / base + 1) ≤ base * (m / base) := Nat.mul_le_mul_left base hless
    rw [Nat.mul_add, Nat.mul_one] at hstep
    exact ⟨fun _ => Or.inl hless, fun _ => by omega⟩
  · rw [heq] at hsplit ⊢
    simp only [lt_self_iff_false, true_and, false_or]
    omega
  · have hstep : base * (m / base + 1) ≤ base * (n / base) := Nat.mul_le_mul_left base hmore
    rw [Nat.mul_add, Nat.mul_one] at hstep
    exact ⟨fun _ => by omega, fun h => by omega⟩

theorem fixed_lt_iff {base width n m : Nat} (hbase : 0 < base) (hn : n < base ^ width)
    (hm : m < base ^ width) : fixed base width n < fixed base width m ↔ n < m := by
  induction width generalizing n m with
  | zero =>
      rw [Nat.pow_zero] at hn hm
      have hsame : n = m := by omega
      simp [hsame]
  | succ width ih =>
      have hfirst := ih (div_lt_pow hbase hn) (div_lt_pow hbase hm)
      have hback := ih (div_lt_pow hbase hm) (div_lt_pow hbase hn)
      have hsame := eq_iff_eq_of_lt_iff_lt hfirst hback
      simp only [fixed]
      rw [append_lt_append_iff (by simp), hfirst, hsame, lt_iff_div_mod hbase n m]
      simp only [List.cons_lt_cons_iff, List.not_lt_nil, and_false, or_false]

theorem fixed_zero (base width : Nat) : fixed base width 0 = List.replicate width 0 := by
  induction width with
  | zero => rfl
  | succ width ih => simp [fixed, ih, List.replicate_succ']

/-- A numeral padded to a width it fits in has exactly that many digits. -/
theorem leftpad_toDigits {base width n : Nat} (hbase : 1 < base) (hn : n < base ^ width)
    (hwidth : 0 < width) :
    (Nat.toDigits base n).leftpad width '0' = (fixed base width n).map Nat.digitChar := by
  induction width generalizing n with
  | zero => omega
  | succ width ih =>
      simp only [fixed, List.map_append, List.map_singleton]
      rcases Nat.lt_or_ge n base with hsmall | hlarge
      · rw [Nat.toDigits_of_lt_base hsmall, Nat.div_eq_of_lt hsmall, Nat.mod_eq_of_lt hsmall,
          fixed_zero, List.map_replicate]
        simp only [List.leftpad, List.length_singleton, Nat.add_sub_cancel]
        rfl
      · have hpos : 0 < width := by
          rcases Nat.eq_zero_or_pos width with rfl | hpos
          · rw [Nat.zero_add, Nat.pow_one] at hn
            omega
          · exact hpos
        have hdigits := ih (div_lt_pow (by omega) hn) hpos
        rw [Nat.toDigits_of_base_le hbase hlarge, ← hdigits]
        simp [List.leftpad, Nat.add_sub_add_right]

theorem digitChar_lt_iff {digit digit' : Nat} (h : digit < 16) (h' : digit' < 16) :
    (Nat.digitChar digit).toNat < (Nat.digitChar digit').toNat ↔ digit < digit' := by
  have hall : ∀ d : Fin 16, ∀ d' : Fin 16,
      (Nat.digitChar d).toNat < (Nat.digitChar d').toNat ↔ d < d' := by decide
  exact hall ⟨digit, h⟩ ⟨digit', h'⟩

/-- A map that keeps the order of the elements keeps the order of the lists. -/
theorem map_lt_map_iff {α β : Type*} [LinearOrder α] [LinearOrder β] {rank : α → β}
    {allowed : α → Prop} (hrank : ∀ a b, allowed a → allowed b → (rank a < rank b ↔ a < b))
    {first second : List α} (hfirst : ∀ a ∈ first, allowed a)
    (hsecond : ∀ b ∈ second, allowed b) :
    first.map rank < second.map rank ↔ first < second := by
  induction first generalizing second with
  | nil => cases second <;> simp
  | cons a as ih =>
      cases second with
      | nil => simp
      | cons b bs =>
          rw [List.forall_mem_cons] at hfirst hsecond
          have hlt := hrank a b hfirst.1 hsecond.1
          have hgt := hrank b a hsecond.1 hfirst.1
          have heq := eq_iff_eq_of_lt_iff_lt hlt hgt
          have htail := ih hfirst.2 hsecond.2
          simp only [List.map_cons, List.cons_lt_cons_iff, hlt, heq, htail]

/-- Numerals of one width sort as text the way their numbers do. -/
theorem numeral_lt_iff {base width n m : Nat} (hbase : 0 < base) (hsixteen : base ≤ 16)
    (hn : n < base ^ width) (hm : m < base ^ width) :
    ((fixed base width n).map Nat.digitChar).map Char.toNat <
        ((fixed base width m).map Nat.digitChar).map Char.toNat ↔ n < m := by
  have hdigit (k : Nat) : ∀ digit ∈ fixed base width k, digit < 16 := by
    intro digit hmem
    have hlt := fixed_lt_base hbase hmem
    omega
  have hrank : ∀ digit digit', digit < 16 → digit' < 16 →
      ((Char.toNat ∘ Nat.digitChar) digit < (Char.toNat ∘ Nat.digitChar) digit' ↔
        digit < digit') := by
    intro digit digit' h h'
    exact digitChar_lt_iff h h'
  rw [List.map_map, List.map_map, map_lt_map_iff hrank (hdigit n) (hdigit m)]
  exact fixed_lt_iff hbase hn hm

end Numerals
