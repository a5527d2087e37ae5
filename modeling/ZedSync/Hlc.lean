import Mathlib.Data.Prod.Lex
import ZedSync.Lib.Lexicographic

/-!
Hybrid Logical Clock stamps and the comparison each runtime makes of them
(`src/hlc.rs`, `sdk/src/hlc.mjs`, `dart/zed_sync/lib/src/hlc.dart`). All three
compare `wall_ms`, then `counter`, then `actor`. They differ in the last
step: Rust compares the UTF-8 bytes of the actor, JavaScript and Dart its
UTF-16 code units. A Lean `Char` is a Unicode scalar value, so a `String` is
exactly the text all three runtimes can hold.
-/

namespace ZedSync

open Lexicographic

@[ext] structure Hlc where
  wallMs : Nat
  counter : Nat
  actor : String
  deriving DecidableEq, Repr, Inhabited

/-- The UTF-8 bytes of one code point. -/
def utf8 (c : Char) : List Nat :=
  let n := c.toNat
  if n < 0x80 then [n]
  else if n < 0x800 then [0xC0 + n / 0x40, 0x80 + n % 0x40]
  else if n < 0x10000 then
    [0xE0 + n / 0x1000, 0x80 + n / 0x40 % 0x40, 0x80 + n % 0x40]
  else
    [0xF0 + n / 0x40000, 0x80 + n / 0x1000 % 0x40, 0x80 + n / 0x40 % 0x40,
      0x80 + n % 0x40]

/-- The UTF-16 code units of one code point: a surrogate pair from 0x10000 on. -/
def utf16 (c : Char) : List Nat :=
  let n := c.toNat
  if n < 0x10000 then [n]
  else [0xD800 + (n - 0x10000) / 0x400, 0xDC00 + (n - 0x10000) % 0x400]

/-- Where UTF-16 sorts a code point. Surrogates lie below 0xE000, so every
supplementary code point sorts before the block 0xE000..0xFFFF, which is
moved here past the last code point. -/
def utf16Rank (c : Char) : Nat :=
  if c.toNat < 0xE000 then c.toNat
  else if c.toNat < 0x10000 then c.toNat + 0x110000
  else c.toNat

theorem scalar_bound (c : Char) :
    c.toNat < 0xD800 ∨ (0xDFFF < c.toNat ∧ c.toNat < 0x110000) := c.valid

theorem utf8_append_lt (c d : Char) (xs ys : List Nat) (h : c.toNat < d.toNat) :
    utf8 c ++ xs < utf8 d ++ ys := by
  have hc := scalar_bound c
  have hd := scalar_bound d
  simp only [utf8]
  repeat' split
  all_goals simp only [List.cons_append, List.nil_append, List.cons_lt_cons_iff]
  all_goals omega

theorem utf16_append_lt (c d : Char) (xs ys : List Nat) (h : utf16Rank c < utf16Rank d) :
    utf16 c ++ xs < utf16 d ++ ys := by
  have hc := scalar_bound c
  have hd := scalar_bound d
  simp only [utf16Rank] at h
  simp only [utf16]
  repeat' split at h
  all_goals repeat' split
  all_goals simp only [List.cons_append, List.nil_append, List.cons_lt_cons_iff]
  all_goals omega

theorem utf16Rank_injective : Function.Injective utf16Rank := by
  intro c d h
  have hc := scalar_bound c
  have hd := scalar_bound d
  simp only [utf16Rank] at h
  apply Char.toNat_inj.mp
  repeat' split at h
  all_goals omega

def utf8Code : OrderEncoding Char Nat Nat where
  encode := utf8
  rank := Char.toNat
  rank_injective _ _ h := Char.toNat_inj.mp h
  encode_ne_nil c := by
    simp only [utf8]
    repeat' split
    all_goals simp
  append_lt := utf8_append_lt

def utf16Code : OrderEncoding Char Nat Nat where
  encode := utf16
  rank := utf16Rank
  rank_injective := utf16Rank_injective
  encode_ne_nil c := by
    simp only [utf16]
    split
    all_goals simp
  append_lt := utf16_append_lt

def utf8Bytes (s : String) : List Nat := s.toList.flatMap utf8

def utf16Units (s : String) : List Nat := s.toList.flatMap utf16

theorem utf8Bytes_lt_iff (s t : String) :
    utf8Bytes s < utf8Bytes t ↔ s.toList.map Char.toNat < t.toList.map Char.toNat :=
  flatMap_lt_iff utf8Code s.toList t.toList

theorem utf16Units_lt_iff (s t : String) :
    utf16Units s < utf16Units t ↔ s.toList.map utf16Rank < t.toList.map utf16Rank :=
  flatMap_lt_iff utf16Code s.toList t.toList

theorem utf8Bytes_injective : Function.Injective utf8Bytes := by
  intro s t h
  exact String.toList_injective (flatMap_injective utf8Code h)

theorem utf16Units_injective : Function.Injective utf16Units := by
  intro s t h
  exact String.toList_injective (flatMap_injective utf16Code h)

namespace Rust

/-- `str::cmp`: byte by byte. -/
def strCmp (s t : String) : Ordering :=
  compareOfLessAndEq (utf8Bytes s) (utf8Bytes t)

/-- `Ord for Hlc`. -/
def cmp (a b : Hlc) : Ordering :=
  (compare a.wallMs b.wallMs).then
    ((compare a.counter b.counter).then (strCmp a.actor b.actor))

end Rust

namespace Js

/-- `<` on JavaScript strings. -/
def strLt (s t : String) : Bool := decide (utf16Units s < utf16Units t)

def compareHlc (a b : Hlc) : Int :=
  if a.wallMs ≠ b.wallMs then if a.wallMs < b.wallMs then -1 else 1
  else if a.counter ≠ b.counter then if a.counter < b.counter then -1 else 1
  else if a.actor = b.actor then 0
  else if strLt a.actor b.actor then -1 else 1

end Js

namespace Dart

/-- `String.compareTo`. -/
def strCompareTo (s t : String) : Int :=
  if utf16Units s < utf16Units t then -1
  else if utf16Units s = utf16Units t then 0 else 1

/-- `Hlc.compareTo`. -/
def compareTo (a b : Hlc) : Int :=
  if a.wallMs ≠ b.wallMs then if a.wallMs < b.wallMs then -1 else 1
  else if a.counter ≠ b.counter then if a.counter < b.counter then -1 else 1
  else strCompareTo a.actor b.actor

theorem compareTo_eq_compareHlc : compareTo = Js.compareHlc := by
  funext a b
  have hunits : utf16Units a.actor = utf16Units b.actor ↔ a.actor = b.actor :=
    utf16Units_injective.eq_iff
  by_cases hactor : a.actor = b.actor
  · simp [compareTo, Js.compareHlc, strCompareTo, hactor]
  · simp [compareTo, Js.compareHlc, strCompareTo, Js.strLt, hunits, hactor]

end Dart

/-- Wall clock, then counter, then the actor's UTF-16 code units. -/
def Hlc.key (a : Hlc) : ℕ ×ₗ ℕ ×ₗ List ℕ :=
  toLex (a.wallMs, toLex (a.counter, utf16Units a.actor))

theorem Hlc.key_injective : Function.Injective Hlc.key := by
  intro a b h
  have h' : (a.wallMs, a.counter, utf16Units a.actor) =
      (b.wallMs, b.counter, utf16Units b.actor) := h
  simp only [Prod.mk.injEq] at h'
  exact Hlc.ext h'.1 h'.2.1 (utf16Units_injective h'.2.2)

/-- The order of the JavaScript and Dart runtimes. -/
instance : LinearOrder Hlc := LinearOrder.lift' Hlc.key Hlc.key_injective

theorem Hlc.lt_iff (a b : Hlc) :
    a < b ↔ a.wallMs < b.wallMs ∨ a.wallMs = b.wallMs ∧
      (a.counter < b.counter ∨ a.counter = b.counter ∧
        utf16Units a.actor < utf16Units b.actor) := by
  change a.key < b.key ↔ _
  simp [Hlc.key, Prod.Lex.toLex_lt_toLex]

namespace Js

theorem compareHlc_eq (a b : Hlc) :
    compareHlc a b =
      Lexicographic.compareThree a.wallMs b.wallMs a.counter b.counter (utf16Units a.actor)
        (utf16Units b.actor) := by
  simp only [compareHlc, Lexicographic.compareThree, strLt, decide_eq_true_eq,
    utf16Units_injective.eq_iff]
  congr

theorem compareHlc_neg_iff (a b : Hlc) : compareHlc a b < 0 ↔ a < b := by
  rw [Hlc.lt_iff, compareHlc_eq, Lexicographic.compareThree_neg_iff]

theorem compareHlc_zero_iff (a b : Hlc) : compareHlc a b = 0 ↔ a = b := by
  rw [Hlc.ext_iff, compareHlc_eq, Lexicographic.compareThree_zero_iff,
    utf16Units_injective.eq_iff]

theorem compareHlc_pos_iff (a b : Hlc) : 0 < compareHlc a b ↔ b < a := by
  have hneg := compareHlc_neg_iff a b
  have hzero := compareHlc_zero_iff a b
  rcases lt_trichotomy a b with hlt | heq | hgt
  · have := hneg.mpr hlt
    exact ⟨fun h => by omega, fun h => absurd h hlt.asymm⟩
  · subst heq
    have := hzero.mpr rfl
    exact ⟨fun h => by omega, fun h => absurd h (lt_irrefl _)⟩
  · have hn : ¬ compareHlc a b < 0 := fun h => hgt.asymm (hneg.mp h)
    have hz : compareHlc a b ≠ 0 := fun h => hgt.ne' (hzero.mp h)
    exact ⟨fun _ => hgt, fun _ => by omega⟩

end Js

end ZedSync
