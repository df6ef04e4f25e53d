import Mathlib.Data.List.Basic
import Mathlib.Data.Char

/-!
# JavaScript strings

A JavaScript string is a sequence of UTF-16 code units, not of characters: a surrogate may stand
alone in it. What leaves the string — a hash, a comparison of buffers, a base64 rendering — goes
through UTF-8, where an unpaired surrogate is written as U+FFFD. `scalars` is that reading of a
string as Unicode scalar values, `utf8` the bytes it is written as, and the main result is that two
strings have the same bytes exactly when they have the same scalar values (`utf8_eq_iff`).
-/

/-- A byte string, as a `Buffer` holds it. -/
abbrev Bytes := List UInt8

/-- A JavaScript string: its UTF-16 code units. -/
abbrev JsString := List UInt16

namespace JsString

instance : LawfulBEq JsString := List.instLawfulBEq

/-! ## Code units -/

/-- The code units of one character. -/
def ofChar (c : Char) : JsString :=
  if c.toNat < 0x10000 then [c.toNat.toUInt16]
  else [(0xD800 + (c.toNat - 0x10000) / 0x400).toUInt16,
    (0xDC00 + (c.toNat - 0x10000) % 0x400).toUInt16]

/-- A string literal of the source. -/
def lit (s : String) : JsString := s.toList.flatMap ofChar

/-- First half of a surrogate pair. -/
def IsHigh (u : UInt16) : Prop := 0xD800 ≤ u.toNat ∧ u.toNat ≤ 0xDBFF

/-- Second half of a surrogate pair. -/
def IsLow (u : UInt16) : Prop := 0xDC00 ≤ u.toNat ∧ u.toNat ≤ 0xDFFF

instance : DecidablePred IsHigh := fun _ ↦ inferInstanceAs (Decidable (_ ∧ _))

instance : DecidablePred IsLow := fun _ ↦ inferInstanceAs (Decidable (_ ∧ _))

/-- The scalar value written for a code unit on its own: itself, or U+FFFD for a surrogate. -/
def single (u : UInt16) : Char :=
  if IsHigh u ∨ IsLow u then Char.ofNat 0xFFFD else Char.ofNat u.toNat

/-- The scalar value of a surrogate pair. -/
def pair (hi lo : UInt16) : Char :=
  Char.ofNat (0x10000 + (hi.toNat - 0xD800) * 0x400 + (lo.toNat - 0xDC00))

/-- The scalar values of a string, an unpaired surrogate read as U+FFFD. -/
def scalars : JsString → List Char
  | [] => []
  | [u] => [single u]
  | u :: w :: t =>
    if IsHigh u ∧ IsLow w then pair u w :: scalars t else single u :: scalars (w :: t)

/-- No surrogate stands alone. -/
def wellFormed : JsString → Bool
  | [] => true
  | [u] => !decide (IsHigh u ∨ IsLow u)
  | u :: w :: t =>
    if IsHigh u ∧ IsLow w then wellFormed t
    else !decide (IsHigh u ∨ IsLow u) && wellFormed (w :: t)

/-! ## UTF-8 -/

/-- The bytes `Buffer.from(s, 'utf8')` holds. -/
def utf8 (s : JsString) : Bytes := (scalars s).flatMap String.utf8EncodeChar

theorem flatMap_utf8EncodeChar_injective :
    Function.Injective fun l : List Char ↦ l.flatMap String.utf8EncodeChar := by
  intro l l' h
  have henc : l.utf8Encode = l'.utf8Encode := by
    rw [List.utf8Encode, List.utf8Encode]
    exact congrArg _ h
  have hstr : String.ofList l = String.ofList l' := String.toByteArray_inj.mp (by simpa using henc)
  exact String.ofList_injective hstr

/-- Equal bytes mean equal scalar values: UTF-8 is uniquely readable. -/
theorem utf8_eq_iff {s t : JsString} : utf8 s = utf8 t ↔ scalars s = scalars t :=
  flatMap_utf8EncodeChar_injective.eq_iff

/-! ## Strings that are read unit by unit -/

/-- The units that no reading changes: neither a surrogate nor the replacement character. -/
def Plain (s : JsString) : Prop := ∀ u ∈ s, ¬IsHigh u ∧ ¬IsLow u ∧ u.toNat ≠ 0xFFFD

theorem Plain.of_cons {u : UInt16} {s : JsString} (h : Plain (u :: s)) : Plain s :=
  fun w hw ↦ h w (List.mem_cons_of_mem u hw)

theorem toNat_ofNat {n : ℕ} (h : n.isValidChar) : (Char.ofNat n).toNat = n := by
  rw [Char.ofNat, dif_pos h]
  rfl

theorem toNat_single {u : UInt16} :
    (single u).toNat = if IsHigh u ∨ IsLow u then 0xFFFD else u.toNat := by
  have hu : u.toNat < 0x10000 := u.toNat_lt
  rw [single]
  split
  · rfl
  · next h =>
    rw [toNat_ofNat]
    simp only [IsHigh, IsLow, Nat.isValidChar] at h ⊢
    omega

theorem toNat_pair {hi lo : UInt16} (hh : IsHigh hi) (hl : IsLow lo) :
    0x10000 ≤ (pair hi lo).toNat := by
  simp only [IsHigh, IsLow] at hh hl
  rw [pair, toNat_ofNat (by simp only [Nat.isValidChar]; omega)]
  omega

theorem scalars_cons_of_not_high {u : UInt16} (h : ¬IsHigh u) (t : JsString) :
    scalars (u :: t) = single u :: scalars t := by
  cases t with
  | nil => rfl
  | cons w t => rw [scalars, if_neg fun hp ↦ h hp.1]

theorem scalars_ofChar_append (c : Char) (s : JsString) :
    scalars (ofChar c ++ s) = c :: scalars s := by
  have hv : c.toNat.isValidChar := c.valid
  have hc : Char.ofNat c.toNat = c := Char.ofNat_toNat c
  simp only [Nat.isValidChar] at hv
  rw [ofChar]
  split
  · next h =>
    have hu : c.toNat.toUInt16.toNat = c.toNat := by
      simp
      omega
    have hhi : ¬IsHigh c.toNat.toUInt16 := by
      simp only [IsHigh, hu]
      omega
    have hlo : ¬IsLow c.toNat.toUInt16 := by
      simp only [IsLow, hu]
      omega
    rw [List.singleton_append, scalars_cons_of_not_high hhi, single,
      if_neg (not_or.mpr ⟨hhi, hlo⟩), hu, hc]
  · next h =>
    have hhi : (0xD800 + (c.toNat - 0x10000) / 0x400).toUInt16.toNat
        = 0xD800 + (c.toNat - 0x10000) / 0x400 := by
      simp
      omega
    have hlo : (0xDC00 + (c.toNat - 0x10000) % 0x400).toUInt16.toNat
        = 0xDC00 + (c.toNat - 0x10000) % 0x400 := by
      simp
      omega
    rw [List.cons_append, List.singleton_append, scalars, if_pos, pair, hhi, hlo]
    · have hsum : 0x10000 + (0xD800 + (c.toNat - 0x10000) / 0x400 - 0xD800) * 0x400
          + (0xDC00 + (c.toNat - 0x10000) % 0x400 - 0xDC00) = c.toNat := by omega
      rw [hsum, hc]
    · rw [IsHigh, IsLow, hhi, hlo]
      omega

theorem scalars_flatMap_ofChar (l : List Char) : scalars (l.flatMap ofChar) = l := by
  induction l with
  | nil => rfl
  | cons c l ih => rw [List.flatMap_cons, scalars_ofChar_append, ih]

theorem eq_of_scalars_eq {s t : JsString} (ht : Plain t) (h : scalars s = scalars t) : s = t := by
  induction s using scalars.induct generalizing t with
  | case1 =>
    cases t with
    | nil => rfl
    | cons b t =>
      rw [scalars_cons_of_not_high (ht b List.mem_cons_self).1] at h
      simp [scalars] at h
  | case2 u =>
    cases t with
    | nil => simp [scalars] at h
    | cons b t =>
      obtain ⟨hbh, hbl, hb⟩ := ht b List.mem_cons_self
      rw [scalars_cons_of_not_high hbh, scalars, List.cons.injEq] at h
      obtain ⟨hub, htail⟩ := h
      have hnat := congrArg Char.toNat hub
      rw [toNat_single, toNat_single, if_neg (not_or.mpr ⟨hbh, hbl⟩)] at hnat
      split at hnat
      · exact absurd hnat.symm hb
      · cases t with
        | nil => rw [UInt16.toNat_inj.mp hnat]
        | cons c t =>
          rw [scalars_cons_of_not_high (ht c (by simp)).1] at htail
          simp at htail
  | case3 u w s hp ih =>
    rw [scalars, if_pos hp] at h
    cases t with
    | nil => simp [scalars] at h
    | cons b t =>
      -- a pair lies beyond every single unit
      obtain ⟨hbh, hbl, -⟩ := ht b List.mem_cons_self
      rw [scalars_cons_of_not_high hbh, List.cons.injEq] at h
      have hnat := congrArg Char.toNat h.1
      rw [toNat_single, if_neg (not_or.mpr ⟨hbh, hbl⟩)] at hnat
      have hge := toNat_pair hp.1 hp.2
      have hlt : b.toNat < 0x10000 := b.toNat_lt
      omega
  | case4 u w s hp ih =>
    rw [scalars, if_neg hp] at h
    cases t with
    | nil => simp [scalars] at h
    | cons b t =>
      obtain ⟨hbh, hbl, hb⟩ := ht b List.mem_cons_self
      rw [scalars_cons_of_not_high hbh, List.cons.injEq] at h
      have hnat := congrArg Char.toNat h.1
      rw [toNat_single, toNat_single, if_neg (not_or.mpr ⟨hbh, hbl⟩)] at hnat
      split at hnat
      · exact absurd hnat.symm hb
      · rw [UInt16.toNat_inj.mp hnat, ih ht.of_cons h.2]

theorem eq_of_utf8_eq {s t : JsString} (ht : Plain t) (h : utf8 s = utf8 t) : s = t :=
  eq_of_scalars_eq ht (utf8_eq_iff.mp h)

theorem plain_of_lt {s : JsString} (h : ∀ u ∈ s, u.toNat < 0x100) : Plain s := by
  intro u hu
  have := h u hu
  simp only [IsHigh, IsLow]
  omega

/-! ## Unpaired surrogates -/

/-- U+FFFD. -/
def replacementUnit : UInt16 := 0xFFFD

/-- A code unit that stands alone, or U+FFFD for a surrogate. -/
def lone (u : UInt16) : UInt16 := if IsHigh u ∨ IsLow u then replacementUnit else u

/-- `String.prototype.toWellFormed`: every unpaired surrogate is replaced by U+FFFD. -/
def toWellFormed : JsString → JsString
  | [] => []
  | [u] => [lone u]
  | u :: w :: t =>
    if IsHigh u ∧ IsLow w then u :: w :: toWellFormed t else lone u :: toWellFormed (w :: t)

theorem ofChar_single (u : UInt16) : ofChar (single u) = [lone u] := by
  have hu : u.toNat < 0x10000 := u.toNat_lt
  rw [ofChar, toNat_single, lone]
  by_cases h : IsHigh u ∨ IsLow u
  · simp only [if_pos h]
    rfl
  · simp only [if_neg h]
    rw [if_pos hu]
    exact congrArg (fun v ↦ [v]) UInt16.ofNat_toNat

theorem ofChar_pair {hi lo : UInt16} (hh : IsHigh hi) (hl : IsLow lo) :
    ofChar (pair hi lo) = [hi, lo] := by
  have hge := toNat_pair hh hl
  simp only [IsHigh, IsLow] at hh hl
  have hnat : (pair hi lo).toNat
      = 0x10000 + (hi.toNat - 0xD800) * 0x400 + (lo.toNat - 0xDC00) := by
    rw [pair, toNat_ofNat (by simp only [Nat.isValidChar]; omega)]
  have hhi : 0xD800 + ((pair hi lo).toNat - 0x10000) / 0x400 = hi.toNat := by omega
  have hlo : 0xDC00 + ((pair hi lo).toNat - 0x10000) % 0x400 = lo.toNat := by omega
  rw [ofChar, if_neg (by omega), hhi, hlo]
  exact congrArg₂ (fun v w ↦ [v, w]) UInt16.ofNat_toNat UInt16.ofNat_toNat

theorem flatMap_ofChar_scalars (s : JsString) : (scalars s).flatMap ofChar = toWellFormed s := by
  induction s using scalars.induct with
  | case1 => rfl
  | case2 u => simp [scalars, toWellFormed, ofChar_single]
  | case3 u w t h ih =>
    rw [scalars, if_pos h, toWellFormed, if_pos h, List.flatMap_cons, ih, ofChar_pair h.1 h.2]
    rfl
  | case4 u w t h ih =>
    rw [scalars, if_neg h, toWellFormed, if_neg h, List.flatMap_cons, ih, ofChar_single]
    rfl

/-- Two strings are written with the same bytes exactly when they are equal after every unpaired
surrogate is replaced. -/
theorem utf8_eq_iff_toWellFormed {s t : JsString} :
    utf8 s = utf8 t ↔ toWellFormed s = toWellFormed t := by
  rw [utf8_eq_iff, ← flatMap_ofChar_scalars, ← flatMap_ofChar_scalars]
  refine ⟨fun h ↦ by rw [h], fun h ↦ ?_⟩
  rw [← scalars_flatMap_ofChar (scalars s), h, scalars_flatMap_ofChar]

theorem lone_eq_self_iff {u : UInt16} : lone u = u ↔ ¬(IsHigh u ∨ IsLow u) := by
  rw [lone]
  split
  · next h =>
    refine iff_of_false (fun he ↦ ?_) (not_not.mpr h)
    rw [← he] at h
    exact absurd h (by decide)
  · next h => exact iff_of_true rfl h

theorem toWellFormed_eq_self_iff {s : JsString} : toWellFormed s = s ↔ wellFormed s := by
  induction s using scalars.induct with
  | case1 => simp [toWellFormed, wellFormed]
  | case2 u => simp [toWellFormed, wellFormed, lone_eq_self_iff]
  | case3 u w t h ih =>
    simp only [toWellFormed, if_pos h, wellFormed, List.cons.injEq, true_and, ih]
  | case4 u w t h ih =>
    rw [toWellFormed, if_neg h, wellFormed, if_neg h, List.cons.injEq, ih, lone_eq_self_iff,
      Bool.and_eq_true, Bool.not_eq_true', decide_eq_false_iff_not]

/-! ## Decimal numerals -/

/-- `String(n)` of an integer. -/
def ofInt : ℤ → JsString
  | .ofNat n => (Nat.toDigits 10 n).flatMap ofChar
  | .negSucc n => ('-' :: Nat.toDigits 10 (n + 1)).flatMap ofChar

/-- The number a non-empty row of digits denotes. -/
def numeral (cs : List Char) : Option ℕ :=
  if cs ≠ [] ∧ cs.all Char.isDigit then some (Nat.ofDigitChars 10 cs 0) else none

/-- `Number(s)` of a decimal numeral; `none` stands for every other value. -/
def toInt? (s : JsString) : Option ℤ :=
  match scalars s with
  | '-' :: cs => (numeral cs).map fun n ↦ -(n : ℤ)
  | cs => (numeral cs).map Int.ofNat

theorem numeral_toDigits (n : ℕ) : numeral (Nat.toDigits 10 n) = some n := by
  rw [numeral, if_pos, Nat.ofDigitChars_ten_toDigits]
  exact ⟨Nat.toDigits_ne_nil, List.all_eq_true.mpr fun c hc ↦
    Nat.isDigit_of_mem_toDigits (by decide) (by decide) hc⟩

@[simp] theorem toInt?_ofInt (n : ℤ) : toInt? (ofInt n) = some n := by
  cases n with
  | ofNat n =>
    rw [toInt?, ofInt, scalars_flatMap_ofChar]
    split
    · next cs h =>
      -- a row of digits has no sign
      have hdigit := Nat.isDigit_of_mem_toDigits (b := 10) (n := n) (c := '-') (by decide)
        (by decide) (by rw [h]; exact List.mem_cons_self)
      exact absurd hdigit (by decide)
    · rw [numeral_toDigits]
      rfl
  | negSucc n =>
    rw [toInt?, ofInt, scalars_flatMap_ofChar]
    simp only [numeral_toDigits]
    rfl

/-! ## Percent encoding -/

/-- The characters `encodeURIComponent` leaves alone. -/
def unreserved (c : Char) : Bool := c.isAlphanum || "-_.!~*'()".toList.contains c

/-- An upper-case hexadecimal digit. -/
def hexDigit (n : ℕ) : UInt16 := (if n < 10 then 48 + n else 55 + n).toUInt16

/-- `encodeURIComponent`, which throws a `URIError` on an unpaired surrogate. -/
def encodeURIComponent (s : JsString) : Option JsString :=
  if wellFormed s then
    some ((scalars s).flatMap fun c ↦
      if unreserved c then ofChar c
      else (String.utf8EncodeChar c).flatMap fun b ↦
        [37, hexDigit (b.toNat / 16), hexDigit (b.toNat % 16)])
  else none

example : encodeURIComponent (lit "p@ss word/with+special")
    = some (lit "p%40ss%20word%2Fwith%2Bspecial") := by decide

theorem scalars_eq_map {s : JsString} (h : ∀ u ∈ s, ¬(IsHigh u ∨ IsLow u)) :
    scalars s = s.map single := by
  induction s with
  | nil => rfl
  | cons u t ih =>
    rw [scalars_cons_of_not_high fun hu ↦ h u List.mem_cons_self (Or.inl hu),
      ih fun w hw ↦ h w (List.mem_cons_of_mem u hw), List.map_cons]

theorem encodeURIComponent_eq_self {s : JsString}
    (h : ∀ u ∈ s, ¬(IsHigh u ∨ IsLow u) ∧ unreserved (single u)) :
    encodeURIComponent s = some s := by
  have hscalars : scalars s = s.map single := scalars_eq_map fun u hu ↦ (h u hu).1
  have hself : (scalars s).flatMap ofChar = s := by
    rw [hscalars, List.flatMap_map]
    conv_rhs => rw [← List.flatMap_singleton' s]
    refine List.flatMap_congr fun u hu ↦ ?_
    rw [ofChar_single, lone_eq_self_iff.mpr (h u hu).1]
  rw [encodeURIComponent, if_pos (toWellFormed_eq_self_iff.mp (flatMap_ofChar_scalars s ▸ hself))]
  conv_rhs => rw [← hself]
  refine congrArg some (List.flatMap_congr fun c hc ↦ ?_)
  obtain ⟨u, hu, rfl⟩ := List.mem_map.mp (hscalars ▸ hc)
  rw [if_pos (h u hu).2]

end JsString
