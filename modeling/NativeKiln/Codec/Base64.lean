import NativeKiln.Codec.JsString
import Mathlib.Tactic.IntervalCases

/-!
# Base64 and hexadecimal, as Node writes and reads them

`Buffer.toString('base64')` and `toString('base64url')` differ in two letters and in the padding.
`Buffer.from(s, 'base64')` reads both alphabets, stops at the first `=` and passes over every other
character. Encoding is split at the sextets, so that the round trip is one statement about bytes
(`bytesOfSextets_sextets`) and one about letters (`sextetsOf_letters`).
-/

namespace Base64

/-! ## Sextets -/

/-- The six-bit groups of a byte string, the last one filled up with zero bits. -/
def sextets : Bytes → List ℕ
  | a :: b :: c :: t =>
    a.toNat / 4 :: (a.toNat % 4 * 16 + b.toNat / 16) :: (b.toNat % 16 * 4 + c.toNat / 64)
      :: c.toNat % 64 :: sextets t
  | [a, b] => [a.toNat / 4, a.toNat % 4 * 16 + b.toNat / 16, b.toNat % 16 * 4]
  | [a] => [a.toNat / 4, a.toNat % 4 * 16]
  | [] => []

/-- The whole bytes a sequence of sextets holds; left-over bits are dropped. -/
def bytesOfSextets : List ℕ → Bytes
  | w :: x :: y :: z :: t =>
    (w * 4 + x / 16).toUInt8 :: (x % 16 * 16 + y / 4).toUInt8 :: (y % 4 * 64 + z).toUInt8
      :: bytesOfSextets t
  | [w, x, y] => [(w * 4 + x / 16).toUInt8, (x % 16 * 16 + y / 4).toUInt8]
  | [w, x] => [(w * 4 + x / 16).toUInt8]
  | _ => []

theorem toUInt8_eq {n : ℕ} {b : UInt8} (h : n = b.toNat) : n.toUInt8 = b := by
  rw [h]
  exact UInt8.ofNat_toNat

theorem bytesOfSextets_sextets (bs : Bytes) : bytesOfSextets (sextets bs) = bs := by
  induction bs using sextets.induct with
  | case1 a b c t ih =>
    have ha := a.toNat_lt
    have hb := b.toNat_lt
    have hc := c.toNat_lt
    rw [sextets, bytesOfSextets, ih, toUInt8_eq (b := a) (by omega),
      toUInt8_eq (b := b) (by omega), toUInt8_eq (b := c) (by omega)]
  | case2 a b =>
    have ha := a.toNat_lt
    have hb := b.toNat_lt
    rw [sextets, bytesOfSextets, toUInt8_eq (b := a) (by omega), toUInt8_eq (b := b) (by omega)]
  | case3 a =>
    have ha := a.toNat_lt
    rw [sextets, bytesOfSextets, toUInt8_eq (b := a) (by omega)]
  | case4 => rfl

theorem lt_of_mem_sextets {bs : Bytes} {n : ℕ} (h : n ∈ sextets bs) : n < 64 := by
  induction bs using sextets.induct with
  | case1 a b c t ih =>
    have ha := a.toNat_lt
    have hb := b.toNat_lt
    have hc := c.toNat_lt
    simp only [sextets, List.mem_cons] at h
    rcases h with rfl | rfl | rfl | rfl | h
    · omega
    · omega
    · omega
    · omega
    · exact ih h
  | case2 a b =>
    have ha := a.toNat_lt
    have hb := b.toNat_lt
    simp only [sextets, List.mem_cons, List.not_mem_nil, or_false] at h
    omega
  | case3 a =>
    have ha := a.toNat_lt
    simp only [sextets, List.mem_cons, List.not_mem_nil, or_false] at h
    omega
  | case4 => simp [sextets] at h

/-! ## Letters -/

/-- The two alphabets. -/
inductive Variant
  | base64
  | base64url
  deriving DecidableEq, Repr

/-- The letter of a sextet. -/
def Variant.letter (v : Variant) (n : ℕ) : UInt16 :=
  if n < 26 then (65 + n).toUInt16
  else if n < 52 then (71 + n).toUInt16
  else if n < 62 then (n - 4).toUInt16
  else match v with
    | .base64 => if n = 62 then 43 else 47
    | .base64url => if n = 62 then 45 else 95

/-- The sextet of a letter, of either alphabet. -/
def sextetOf (u : UInt16) : Option ℕ :=
  let n := u.toNat
  if 65 ≤ n ∧ n ≤ 90 then some (n - 65)
  else if 97 ≤ n ∧ n ≤ 122 then some (n - 71)
  else if 48 ≤ n ∧ n ≤ 57 then some (n + 4)
  else if n = 43 ∨ n = 45 then some 62
  else if n = 47 ∨ n = 95 then some 63
  else none

/-- The padding character. -/
def pad : UInt16 := 61

/-- The padding of a byte string of length `n`; the URL alphabet has none. -/
def Variant.padding (v : Variant) (n : ℕ) : JsString :=
  match v with
  | .base64 => List.replicate ((3 - n % 3) % 3) pad
  | .base64url => []

theorem sextetOf_letter (v : Variant) {n : ℕ} (h : n < 64) : sextetOf (v.letter n) = some n := by
  cases v <;> interval_cases n <;> rfl

theorem letter_lt (v : Variant) {n : ℕ} (h : n < 64) : (v.letter n).toNat < 0x80 := by
  cases v <;> interval_cases n <;> decide

/-- `buf.toString(v)`. -/
def encode (v : Variant) (bs : Bytes) : JsString :=
  (sextets bs).map v.letter ++ v.padding bs.length

/-- `Buffer.from(s, 'base64')`. -/
def decode (s : JsString) : Bytes :=
  bytesOfSextets ((s.takeWhile (· ≠ pad)).filterMap sextetOf)

theorem sextetsOf_letters (v : Variant) {l : List ℕ} (h : ∀ n ∈ l, n < 64) (m : ℕ) :
    (((l.map v.letter ++ v.padding m).takeWhile (· ≠ pad)).filterMap sextetOf) = l := by
  induction l with
  | nil =>
    cases v with
    | base64 =>
      rw [List.map_nil, List.nil_append, Variant.padding]
      cases (3 - m % 3) % 3 <;> simp [List.replicate_succ]
    | base64url => rfl
  | cons n l ih =>
    have hn : sextetOf (v.letter n) = some n := sextetOf_letter v (h n List.mem_cons_self)
    have hpad : v.letter n ≠ pad := by
      intro hp
      rw [hp] at hn
      simp [sextetOf, pad] at hn
    rw [List.map_cons, List.cons_append, List.takeWhile_cons_of_pos (by simpa using hpad),
      List.filterMap_cons, hn, ih fun m hm ↦ h m (List.mem_cons_of_mem n hm)]

/-- **Round trip**: what Node writes in either alphabet it reads back. -/
theorem decode_encode (v : Variant) (bs : Bytes) : decode (encode v bs) = bs := by
  rw [decode, encode, sextetsOf_letters v (fun n ↦ lt_of_mem_sextets), bytesOfSextets_sextets]

theorem encode_injective (v : Variant) : Function.Injective (encode v) :=
  Function.LeftInverse.injective (decode_encode v)

theorem encode_lt (v : Variant) (bs : Bytes) : ∀ u ∈ encode v bs, u.toNat < 0x100 := by
  intro u hu
  rw [encode, List.mem_append] at hu
  rcases hu with hu | hu
  · obtain ⟨n, hn, rfl⟩ := List.mem_map.mp hu
    have := letter_lt v (lt_of_mem_sextets hn)
    omega
  · cases v with
    | base64 =>
      rw [List.eq_of_mem_replicate hu]
      decide
    | base64url => simp [Variant.padding] at hu

theorem encode_plain (v : Variant) (bs : Bytes) : JsString.Plain (encode v bs) :=
  JsString.plain_of_lt (encode_lt v bs)

end Base64

/-! ## Hexadecimal -/

namespace Hex

/-- The value of a hexadecimal digit of either case. -/
def digitOf (u : UInt16) : Option ℕ :=
  let n := u.toNat
  if 48 ≤ n ∧ n ≤ 57 then some (n - 48)
  else if 65 ≤ n ∧ n ≤ 70 then some (n - 55)
  else if 97 ≤ n ∧ n ≤ 102 then some (n - 87)
  else none

/-- `Buffer.from(s, 'hex')`: two digits a byte, up to the first pair that is not one. -/
def decode : JsString → Bytes
  | h :: l :: t =>
    match digitOf h, digitOf l with
    | some a, some b => (a * 16 + b).toUInt8 :: decode t
    | _, _ => []
  | _ => []

theorem length_decode {s : JsString} (h : ∀ u ∈ s, (digitOf u).isSome) :
    (decode s).length = s.length / 2 := by
  induction s using decode.induct with
  | case1 h l t a b ha hb ih =>
    rw [decode, ha, hb]
    simp only [List.length_cons]
    rw [ih fun u hu ↦ h u (by simp [hu])]
    omega
  | case2 h' l t hno =>
    obtain ⟨a, ha⟩ := Option.isSome_iff_exists.mp (h h' (by simp))
    obtain ⟨b, hb⟩ := Option.isSome_iff_exists.mp (h l (by simp))
    exact absurd hb (hno a b ha)
  | case3 s hs =>
    match s with
    | [] => rfl
    | [u] => simp [decode]
    | a :: b :: t => exact absurd rfl (hs a b t)

end Hex
