import ZedSync.Lib.Numerals
import ZedSync.Rust.Clock

/-!
The sortable string of a stamp: its wall in twelve hexadecimal digits, a dash, its
counter in four. The wall loses everything above 48 bits in each runtime. The counter
loses everything above 16 bits in JavaScript and Dart; Rust pads it to four digits and
writes as many as it has.
-/

namespace ZedSync

open Numerals

namespace Rust

/-- `{:0width$x}`. -/
def lowerHex (width n : Nat) : String :=
  String.ofList ((Nat.toDigits 16 n).leftpad width '0')

def Hlc.encode (hlc : Hlc) : String :=
  lowerHex 12 (hlc.wallMs &&& 0xffffffffffff).toNat ++ "-" ++ lowerHex 4 hlc.counter.toNat

end Rust

namespace Js

/-- `Number.prototype.toString(16)` of a whole number. -/
def toString16 (n : Nat) : String := String.ofList (Nat.toDigits 16 n)

def padStart (text : String) (targetLength : Nat) (fill : Char) : String :=
  String.ofList (text.toList.leftpad targetLength fill)

/-- The wall is whole, so `Math.floor` leaves it. -/
def encodeHlc (hlc : Hlc) : String :=
  let wall := padStart (toString16 (hlc.wallMs % 0x1000000000000)) 12 '0'
  let ctr := padStart (toString16 (hlc.counter % 0x10000)) 4 '0'
  wall ++ "-" ++ ctr

end Js

namespace Dart

/-- `int.toRadixString`. -/
def toRadixString (radix n : Nat) : String := String.ofList (Nat.toDigits radix n)

def padLeft (text : String) (width : Nat) (padding : Char) : String :=
  String.ofList (text.toList.leftpad width padding)

/-- `Hlc.encode`. -/
def encode (hlc : Hlc) : String :=
  let wall := padLeft (toRadixString 16 (hlc.wallMs % 0x1000000000000)) 12 '0'
  let ctr := padLeft (toRadixString 16 (hlc.counter % 0x10000)) 4 '0'
  wall ++ "-" ++ ctr

end Dart

/-- The fields are no wider than the format. -/
structure Hlc.FitsFormat (hlc : Hlc) : Prop where
  wall : hlc.wallMs < 2 ^ 48
  counter : hlc.counter < 2 ^ 16

/-- What an encoding is of: the wall, then the counter. -/
def Hlc.time (hlc : Hlc) : ℕ ×ₗ ℕ := toLex (hlc.wallMs, hlc.counter)

theorem Hlc.time_lt_iff (a b : Hlc) :
    a.time < b.time ↔
      a.wallMs < b.wallMs ∨ a.wallMs = b.wallMs ∧ a.counter < b.counter := by
  simp [Hlc.time, Prod.Lex.toLex_lt_toLex]

/-- The encoding of a stamp that fits: two numerals of fixed width. -/
def canonical (wall counter : Nat) : List Char :=
  (fixed 16 12 wall).map Nat.digitChar ++ '-' :: (fixed 16 4 counter).map Nat.digitChar

@[simp] theorem canonical_length (wall counter : Nat) : (canonical wall counter).length = 17 := by
  simp [canonical]

theorem Js.encodeHlc_eq (hlc : Hlc) :
    Js.encodeHlc hlc =
      String.ofList (canonical (hlc.wallMs % 2 ^ 48) (hlc.counter % 2 ^ 16)) := by
  have hwall : hlc.wallMs % 0x1000000000000 < 16 ^ 12 := Nat.mod_lt _ (by decide)
  have hctr : hlc.counter % 0x10000 < 16 ^ 4 := Nat.mod_lt _ (by decide)
  simp only [Js.encodeHlc, Js.padStart, Js.toString16, String.toList_ofList,
    leftpad_toDigits (by decide) hwall (by decide), leftpad_toDigits (by decide) hctr (by decide)]
  apply String.toList_injective
  simp [canonical]

theorem canonical_ascii {wall counter : Nat} {c : Char} (hmem : c ∈ canonical wall counter) :
    c.toNat < 0x80 := by
  have hdigit : ∀ width n, ∀ d ∈ fixed 16 width n, (Nat.digitChar d).toNat < 0x80 := by
    intro width n d hd
    have hall : ∀ d : Fin 16, (Nat.digitChar d).toNat < 0x80 := by decide
    exact hall ⟨d, fixed_lt_base (by decide) hd⟩
  simp only [canonical, List.mem_append, List.mem_cons, List.mem_map] at hmem
  rcases hmem with ⟨d, hd, rfl⟩ | rfl | ⟨d, hd, rfl⟩
  · exact hdigit _ _ d hd
  · decide
  · exact hdigit _ _ d hd

theorem canonical_lt_iff {wall wall' counter counter' : Nat} (hwall : wall < 2 ^ 48)
    (hwall' : wall' < 2 ^ 48) (hcounter : counter < 2 ^ 16) (hcounter' : counter' < 2 ^ 16) :
    (canonical wall counter).map Char.toNat < (canonical wall' counter').map Char.toNat ↔
      wall < wall' ∨ wall = wall' ∧ counter < counter' := by
  have htwelve : wall < 16 ^ 12 := hwall
  have htwelve' : wall' < 16 ^ 12 := hwall'
  have hfour : counter < 16 ^ 4 := hcounter
  have hfour' : counter' < 16 ^ 4 := hcounter'
  have hfirst := numeral_lt_iff (by decide) le_rfl htwelve htwelve'
  have hback := numeral_lt_iff (by decide) le_rfl htwelve' htwelve
  have hsecond := numeral_lt_iff (by decide) le_rfl hfour hfour'
  have hsame := eq_iff_eq_of_lt_iff_lt hfirst hback
  simp only [canonical, List.map_append, List.map_cons]
  rw [append_lt_append_iff (by simp), hfirst, hsame]
  simp only [List.cons_lt_cons_iff, lt_self_iff_false, true_and, false_or, hsecond]

/-- Byte by byte and code unit by code unit: the characters are ASCII. -/
theorem canonical_text_lt (wall wall' counter counter' : Nat) :
    let text := String.ofList (canonical wall counter)
    let text' := String.ofList (canonical wall' counter')
    let less := (canonical wall counter).map Char.toNat < (canonical wall' counter').map Char.toNat
    (utf8Bytes text < utf8Bytes text' ↔ less) ∧ (utf16Units text < utf16Units text' ↔ less) := by
  intro text text' less
  have hrank (w c : Nat) : (canonical w c).map utf16Rank = (canonical w c).map Char.toNat := by
    apply List.map_congr_left
    intro d hd
    have hlt := canonical_ascii hd
    simp only [utf16Rank]
    rw [if_pos (by omega)]
  rw [utf8Bytes_lt_iff, utf16Units_lt_iff]
  simp only [text, text', String.toList_ofList, hrank, less, and_self]

theorem Dart.encode_eq (hlc : Hlc) : Dart.encode hlc = Js.encodeHlc hlc := rfl

theorem Js.encodeHlc_of_fits {hlc : Hlc} (h : hlc.FitsFormat) :
    Js.encodeHlc hlc = String.ofList (canonical hlc.wallMs hlc.counter) := by
  rw [Js.encodeHlc_eq, Nat.mod_eq_of_lt h.wall, Nat.mod_eq_of_lt h.counter]

namespace Rust

theorem masked_wall (wallMs : UInt64) :
    (wallMs &&& 0xffffffffffff).toNat = wallMs.toNat % 2 ^ 48 := by
  rw [UInt64.toNat_and]
  exact Nat.and_two_pow_sub_one_eq_mod wallMs.toNat 48

theorem encode_toList (hlc : Rust.Hlc) :
    hlc.encode.toList = (fixed 16 12 (hlc.wallMs.toNat % 2 ^ 48)).map Nat.digitChar ++
      '-' :: (Nat.toDigits 16 hlc.counter.toNat).leftpad 4 '0' := by
  have hwall : hlc.wallMs.toNat % 2 ^ 48 < 16 ^ 12 := Nat.mod_lt _ (by decide)
  simp only [Hlc.encode, lowerHex, masked_wall, String.toList_append, String.toList_ofList,
    leftpad_toDigits (by decide) hwall (by decide)]
  simp

theorem encode_of_small (hlc : Rust.Hlc) (hcounter : hlc.counter.toNat < 2 ^ 16) :
    hlc.encode = String.ofList (canonical (hlc.wallMs.toNat % 2 ^ 48) hlc.counter.toNat) := by
  have hfour : hlc.counter.toNat < 16 ^ 4 := hcounter
  apply String.toList_injective
  rw [encode_toList, leftpad_toDigits (by decide) hfour (by decide), String.toList_ofList,
    canonical]

/-- Four digits are not enough for a wider counter. -/
theorem encode_long (hlc : Rust.Hlc) (hcounter : 2 ^ 16 ≤ hlc.counter.toNat) :
    17 < hlc.encode.length := by
  have hdigits : ¬ (Nat.toDigits 16 hlc.counter.toNat).length ≤ 4 := by
    rw [Nat.length_toDigits_le_iff (by decide) (by decide)]
    omega
  rw [← String.length_toList, encode_toList]
  simp only [List.length_append, List.length_map, fixed_length, List.length_cons,
    List.length_leftpad]
  omega

end Rust

/-- Strings of the format's length that sort as the stamps they encode, for the stamps that
fit the format. -/
structure Sorts {α : Type} (stamp : α → Hlc) (encode : α → String)
    (less : String → String → Prop) : Prop where
  length : ∀ a, (stamp a).FitsFormat → (encode a).length = 17
  lt_iff : ∀ a b, (stamp a).FitsFormat → (stamp b).FitsFormat →
    (less (encode a) (encode b) ↔ (stamp a).time < (stamp b).time)
  eq_iff : ∀ a b, (stamp a).FitsFormat → (stamp b).FitsFormat →
    (encode a = encode b ↔ (stamp a).time = (stamp b).time)

theorem Sorts.of_canonical {α : Type} {stamp : α → Hlc} {encode : α → String}
    {less : String → String → Prop}
    (hencode : ∀ a, (stamp a).FitsFormat →
      encode a = String.ofList (canonical (stamp a).wallMs (stamp a).counter))
    (hless : ∀ wall wall' counter counter',
      less (String.ofList (canonical wall counter)) (String.ofList (canonical wall' counter')) ↔
        (canonical wall counter).map Char.toNat < (canonical wall' counter').map Char.toNat) :
    Sorts stamp encode less where
  length a ha := by
    rw [hencode a ha, String.length_ofList, canonical_length]
  lt_iff a b ha hb := by
    rw [hencode a ha, hencode b hb, hless, canonical_lt_iff ha.wall hb.wall ha.counter hb.counter,
      Hlc.time_lt_iff]
  eq_iff a b ha hb := by
    have hab := canonical_lt_iff ha.wall hb.wall ha.counter hb.counter
    have hba := canonical_lt_iff hb.wall ha.wall hb.counter ha.counter
    rw [← Hlc.time_lt_iff] at hab hba
    have hchars := eq_iff_eq_of_lt_iff_lt hab hba
    have htoNat : Function.Injective (List.map Char.toNat) :=
      List.map_injective_iff.mpr fun _ _ => Char.toNat_inj.mp
    rw [hencode a ha, hencode b hb, String.ofList_inj, ← hchars, htoNat.eq_iff]

/-- Each runtime's encoder under that runtime's own comparison of strings. -/
theorem encodings_sort :
    Sorts Rust.Hlc.stamp Rust.Hlc.encode (fun s t => Rust.strCmp s t = .lt) ∧
      Sorts id Js.encodeHlc (fun s t => Js.strLt s t = true) ∧
      Sorts id Dart.encode (fun s t => Dart.strCompareTo s t < 0) := by
  refine ⟨Sorts.of_canonical ?_ ?_, Sorts.of_canonical ?_ ?_, Sorts.of_canonical ?_ ?_⟩
  · intro a ha
    have hwall : a.wallMs.toNat < 2 ^ 48 := ha.wall
    rw [Rust.encode_of_small a ha.counter, Nat.mod_eq_of_lt hwall]
    rfl
  · intro wall wall' counter counter'
    rw [← (canonical_text_lt wall wall' counter counter').1, Rust.strCmp]
    exact compareOfLessAndEq_eq_lt
  · intro a ha
    exact Js.encodeHlc_of_fits ha
  · intro wall wall' counter counter'
    rw [← (canonical_text_lt wall wall' counter counter').2, Js.strLt, decide_eq_true_eq]
  · intro a ha
    exact Js.encodeHlc_of_fits ha
  · intro wall wall' counter counter'
    rw [← (canonical_text_lt wall wall' counter counter').2, Dart.strCompareTo]
    split_ifs with hlt heq
    · exact ⟨fun _ => hlt, fun _ => by decide⟩
    · exact ⟨fun h => absurd h (by decide), fun h => absurd h hlt⟩
    · exact ⟨fun h => absurd h (by decide), fun h => absurd h hlt⟩

/-- The encoders of the three runtimes write one string for the stamps of the wire whose
counter fits the format, and for no other. -/
theorem encoders_agree_iff {hlc : Hlc} (hwall : hlc.wallMs ≤ 9007199254740991)
    (hcounter : hlc.counter ≤ maxCounter) :
    ((Rust.Hlc.ofStamp hlc).encode = Js.encodeHlc hlc ∧ Js.encodeHlc hlc = Dart.encode hlc) ↔
      hlc.counter < 2 ^ 16 := by
  have hwall64 : (Rust.Hlc.ofStamp hlc).wallMs.toNat = hlc.wallMs :=
    UInt64.toNat_ofNat_of_lt (by simp only [UInt64.size]; omega)
  have hcounter32 : (Rust.Hlc.ofStamp hlc).counter.toNat = hlc.counter :=
    UInt32.toNat_ofNat_of_lt (by simp only [UInt32.size, maxCounter] at *; omega)
  constructor
  · rintro ⟨hsame, -⟩
    by_contra hwide
    have hlong := Rust.encode_long (Rust.Hlc.ofStamp hlc) (by omega)
    rw [hsame, Js.encodeHlc_eq, String.length_ofList, canonical_length] at hlong
    exact absurd hlong (lt_irrefl _)
  · intro hfits
    refine ⟨?_, (Dart.encode_eq hlc).symm⟩
    rw [Rust.encode_of_small _ (by omega), Js.encodeHlc_eq, hwall64, hcounter32,
      Nat.mod_eq_of_lt hfits]

/-- An ordinary stamp, the one of the documentation. -/
theorem encoders_agree_on_sample :
    ((Rust.Hlc.ofStamp ⟨0x0197f3b2c4d1, 3, "x"⟩).encode = Js.encodeHlc ⟨0x0197f3b2c4d1, 3, "x"⟩ ∧
      Js.encodeHlc ⟨0x0197f3b2c4d1, 3, "x"⟩ = Dart.encode ⟨0x0197f3b2c4d1, 3, "x"⟩) ↔
      3 < 2 ^ 16 :=
  @encoders_agree_iff ⟨0x0197f3b2c4d1, 3, "x"⟩ (by decide) (by decide)

/-- Rust writes a fifth digit for the counter 65536, JavaScript and Dart four zeros. -/
theorem wide_counter_diverges :
    ¬ ∀ hlc : Hlc, hlc.wallMs ≤ 9007199254740991 → hlc.counter ≤ maxCounter →
      (Rust.Hlc.ofStamp hlc).encode = Js.encodeHlc hlc ∧ Js.encodeHlc hlc = Dart.encode hlc := by
  intro hall
  have hsame := (hall ⟨1, 65536, "a"⟩ (by decide) (by decide)).1
  have hlong := Rust.encode_long (Rust.Hlc.ofStamp ⟨1, 65536, "a"⟩) (by decide)
  rw [hsame, Js.encodeHlc_eq, String.length_ofList, canonical_length] at hlong
  exact absurd hlong (lt_irrefl _)

end ZedSync
