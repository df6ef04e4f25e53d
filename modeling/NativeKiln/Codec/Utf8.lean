import NativeKiln.Codec.JsString

/-!
# Reading UTF-8

`Buffer.toString('utf8')`: the bytes are read one at a time, with the bits of the character that is
under way and the bounds of its next byte. A byte out of bounds ends that character as U+FFFD and is
read again as a first byte; so does the end of the bytes. Nothing is taken for a byte-order mark.

On the bytes of a string the reader gives back its scalar values (`decode_utf8`), hence the string
itself with every unpaired surrogate replaced (`toString_utf8`).
-/

namespace Utf8

/-! ## The reader -/

/-- A character under way. -/
structure Pending where
  /-- The bytes owed after the next one. -/
  more : ℕ
  /-- The bits read. -/
  bits : ℕ
  /-- The least next byte. -/
  lower : ℕ
  /-- The greatest next byte. -/
  upper : ℕ

/-- U+FFFD. -/
def replacement : Char := Char.ofNat 0xFFFD

/-- Read a byte between two characters. The bounds behind E0, ED, F0 and F4 leave out overlong
forms, surrogates and what lies beyond U+10FFFF. -/
def start (b : UInt8) : List Char × Option Pending :=
  let n := b.toNat
  if n ≤ 0x7F then ([Char.ofNat n], none)
  else if 0xC2 ≤ n ∧ n ≤ 0xDF then ([], some ⟨0, n - 0xC0, 0x80, 0xBF⟩)
  else if 0xE0 ≤ n ∧ n ≤ 0xEF then
    ([], some ⟨1, n - 0xE0, if n = 0xE0 then 0xA0 else 0x80, if n = 0xED then 0x9F else 0xBF⟩)
  else if 0xF0 ≤ n ∧ n ≤ 0xF4 then
    ([], some ⟨2, n - 0xF0, if n = 0xF0 then 0x90 else 0x80, if n = 0xF4 then 0x8F else 0xBF⟩)
  else ([replacement], none)

/-- Read a byte: the characters it completes, and the character under way behind it. -/
def next (p : Option Pending) (b : UInt8) : List Char × Option Pending :=
  match p with
  | none => start b
  | some p =>
    if p.lower ≤ b.toNat ∧ b.toNat ≤ p.upper then
      let bits := p.bits * 64 + (b.toNat - 0x80)
      match p.more with
      | 0 => ([Char.ofNat bits], none)
      | m + 1 => ([], some ⟨m, bits, 0x80, 0xBF⟩)
    else (replacement :: (start b).1, (start b).2)

def decodeFrom : Option Pending → Bytes → List Char
  | none, [] => []
  | some _, [] => [replacement]
  | p, b :: bs => (next p b).1 ++ decodeFrom (next p b).2 bs

/-- The scalar values of a byte string. -/
def decode (bs : Bytes) : List Char := decodeFrom none bs

/-- `Buffer.toString('utf8')`. -/
def toString (bs : Bytes) : JsString := (decode bs).flatMap JsString.ofChar

-- an overlong form, a surrogate and a character cut short
example : decode [0xC0, 0x80, 0xED, 0xA0, 0x80, 0xE2, 0x82]
    = [replacement, replacement, replacement, replacement, replacement, replacement] := by decide

/-! ## One byte -/

theorem decodeFrom_cons (p : Option Pending) (b : UInt8) (bs : Bytes) :
    decodeFrom p (b :: bs) = (next p b).1 ++ decodeFrom (next p b).2 bs := by
  cases p <;> rfl

theorem toNat_ofNat {n : ℕ} (h : n < 0x100) : (UInt8.ofNat n).toNat = n := by
  rw [UInt8.toNat_ofNat', Nat.mod_eq_of_lt h]

theorem start_one {n : ℕ} (h : n ≤ 0x7F) : start (UInt8.ofNat n) = ([Char.ofNat n], none) := by
  simp only [start, toNat_ofNat (show n < 0x100 by omega), if_pos h]

theorem start_two {n : ℕ} (h : 2 ≤ n) (h' : n < 32) :
    start (UInt8.ofNat (n + 0xC0)) = ([], some ⟨0, n, 0x80, 0xBF⟩) := by
  simp only [start, toNat_ofNat (show n + 0xC0 < 0x100 by omega)]
  rw [if_neg (by omega), if_pos (by omega), Nat.add_sub_cancel]

theorem start_three {n : ℕ} (h : n < 16) : start (UInt8.ofNat (n + 0xE0))
    = ([], some ⟨1, n, if n = 0 then 0xA0 else 0x80, if n = 13 then 0x9F else 0xBF⟩) := by
  simp only [start, toNat_ofNat (show n + 0xE0 < 0x100 by omega)]
  rw [if_neg (by omega), if_neg (by omega), if_pos (by omega), Nat.add_sub_cancel]
  simp only [Nat.add_eq_right, Nat.reduceEqDiff]

theorem start_four {n : ℕ} (h : n ≤ 4) : start (UInt8.ofNat (n + 0xF0))
    = ([], some ⟨2, n, if n = 0 then 0x90 else 0x80, if n = 4 then 0x8F else 0xBF⟩) := by
  simp only [start, toNat_ofNat (show n + 0xF0 < 0x100 by omega)]
  rw [if_neg (by omega), if_neg (by omega), if_neg (by omega), if_pos (by omega),
    Nat.add_sub_cancel]
  simp only [Nat.add_eq_right, Nat.reduceEqDiff]

theorem next_six {p : Pending} {n : ℕ} (hn : n < 64) (hlower : p.lower ≤ n + 0x80)
    (hupper : n + 0x80 ≤ p.upper) : next (some p) (UInt8.ofNat (n + 0x80))
      = match p.more with
        | 0 => ([Char.ofNat (p.bits * 64 + n)], none)
        | m + 1 => ([], some ⟨m, p.bits * 64 + n, 0x80, 0xBF⟩) := by
  simp only [next, toNat_ofNat (show n + 0x80 < 0x100 by omega)]
  rw [if_pos ⟨hlower, hupper⟩, Nat.add_sub_cancel]

/-! ## One character -/

/-- The bytes of a character are read back as that character, whatever follows. -/
theorem decode_utf8EncodeChar_append (c : Char) (bs : Bytes) :
    decode (String.utf8EncodeChar c ++ bs) = c :: decode bs := by
  have hv : c.toNat.isValidChar := c.valid
  have hc : Char.ofNat c.toNat = c := Char.ofNat_toNat c
  have hval : c.val.toNat = c.toNat := rfl
  simp only [Nat.isValidChar] at hv
  simp only [String.utf8EncodeChar, hval, decode]
  generalize c.toNat = n at hv hc ⊢
  rw [← hc]
  split
  · next h => rw [List.singleton_append, decodeFrom_cons, next, start_one h]; rfl
  · split
    · next h =>
      have hbits : n / 64 % 32 * 64 + n % 64 = n := by omega
      rw [List.cons_append, List.singleton_append, decodeFrom_cons, next,
        start_two (by omega) (by omega), decodeFrom_cons,
        next_six (by omega) (by dsimp only; omega) (by dsimp only; omega)]
      dsimp only
      rw [hbits]
      rfl
    · split
      · next h =>
        have hbits : (n / 4096 % 16 * 64 + n / 64 % 64) * 64 + n % 64 = n := by omega
        rw [List.cons_append, List.cons_append, List.singleton_append, decodeFrom_cons, next,
          start_three (by omega), decodeFrom_cons,
          next_six (by omega) (by dsimp only; split <;> omega) (by dsimp only; split <;> omega)]
        dsimp only
        rw [decodeFrom_cons,
          next_six (by omega) (by dsimp only; omega) (by dsimp only; omega)]
        dsimp only
        rw [hbits]
        rfl
      · next h =>
        have hbits : ((n / 262144 % 8 * 64 + n / 4096 % 64) * 64 + n / 64 % 64) * 64 + n % 64
            = n := by omega
        rw [List.cons_append, List.cons_append, List.cons_append, List.singleton_append,
          decodeFrom_cons, next, start_four (by omega), decodeFrom_cons,
          next_six (by omega) (by dsimp only; split <;> omega) (by dsimp only; split <;> omega)]
        dsimp only
        rw [decodeFrom_cons, next_six (by omega) (by dsimp only; omega) (by dsimp only; omega)]
        dsimp only
        rw [decodeFrom_cons, next_six (by omega) (by dsimp only; omega) (by dsimp only; omega)]
        dsimp only
        rw [hbits]
        rfl

/-! ## Strings -/

theorem decode_flatMap_utf8EncodeChar (l : List Char) :
    decode (l.flatMap String.utf8EncodeChar) = l := by
  induction l with
  | nil => rfl
  | cons c l ih => rw [List.flatMap_cons, decode_utf8EncodeChar_append, ih]

theorem decode_utf8 (s : JsString) : decode s.utf8 = s.scalars :=
  decode_flatMap_utf8EncodeChar s.scalars

/-- **The way through UTF-8.** A string written as UTF-8 is read back with every unpaired surrogate
replaced by U+FFFD, and unchanged otherwise. -/
theorem toString_utf8 (s : JsString) : toString s.utf8 = s.toWellFormed := by
  rw [toString, decode_utf8, JsString.flatMap_ofChar_scalars]

end Utf8
