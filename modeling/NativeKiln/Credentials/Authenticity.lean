import NativeKiln.Credentials.Cipher
import Mathlib.Data.Set.Basic

/-!
# Only what was encrypted is decrypted

A stored value consists of four fields that anyone with access to the table can change: three
strings, read by a lenient decoder, and a version that is not authenticated. The algorithm would
even accept a tag that has been cut off. Over an ideal AES-256-GCM, which opens nothing but what was
sealed, `decrypt` returns exactly what some call of `encrypt` was given under the key the ring holds
for the version, with the same bytes in all three fields (`CredentialCipher.authenticity`).
-/

namespace NativeKiln

/-! ## The ideal algorithm -/

/-- A message that has been sealed. -/
structure Message where
  key : Bytes
  nonce : Bytes
  data : Bytes

namespace Gcm

variable (gcm : Gcm)

/-- The ciphertext of a message. -/
def ciphertext (m : Message) : Bytes := (gcm.encipher m.key m.nonce m.data).1

/-- The full tag of a message. -/
def tag (m : Message) : Bytes := (gcm.encipher m.key m.nonce m.data).2

/-- The lengths of a tag that `setAuthTag` takes. -/
def AUTH_TAG_LENGTHS : List ℕ := [4, 8, 12, 13, 14, 15, 16]

/-- A tag is compared over its own length, so that a correct one may be cut off. -/
def Verifies (tag full : Bytes) : Prop := tag <+: full ∧ tag.length ∈ AUTH_TAG_LENGTHS

instance (tag full : Bytes) : Decidable (Verifies tag full) :=
  inferInstanceAs (Decidable (_ ∧ _))

/-- What is opened has been sealed before, and no two sealed messages under different keys, nonces
or ciphertexts share a full tag, which is a function of these three. -/
structure Ideal (sealed : Set Message) : Prop where
  /-- The length of a full tag. -/
  tag_length : ∀ m ∈ sealed, (gcm.tag m).length = TAG_BYTES
  /-- What is opened. -/
  decipher_ok_iff : ∀ {key nonce tag ciphertext data : Bytes},
    gcm.decipher key nonce tag ciphertext = .ok data ↔
      ∃ m ∈ sealed, m.key = key ∧ m.nonce = nonce ∧ gcm.ciphertext m = ciphertext ∧
        m.data = data ∧ Verifies tag (gcm.tag m)
  /-- When two full tags are the same. -/
  tag_eq_iff : ∀ m ∈ sealed, ∀ m' ∈ sealed, gcm.tag m = gcm.tag m' ↔
    m.key = m'.key ∧ m.nonce = m'.nonce ∧ gcm.ciphertext m = gcm.ciphertext m'

end Gcm

theorem Gcm.Verifies.eq {tag full : Bytes} (h : Verifies tag full)
    (hlen : tag.length = full.length) : tag = full := h.1.eq_of_length hlen

/-! ## Calls of `encrypt` -/

/-- A call of `encrypt`: the cipher, the nonce that was drawn and the argument. -/
structure Encryption where
  cipher : CredentialCipher
  nonce : Nonce
  plaintext : Plaintext

namespace Encryption

variable (gcm : Gcm) (e : Encryption)

/-- The message the call seals. -/
def message : Message := ⟨e.cipher.key.bytes, e.nonce.bytes, e.plaintext.data⟩

/-- The value the call returns. -/
def Returns (value : EncryptedValue) : Prop :=
  ∃ uses uses', (e.cipher.encrypt gcm e.nonce e.plaintext).run.run uses = (.ok value, uses')

variable {gcm e}

theorem returns_iff {value : EncryptedValue} : e.Returns gcm value ↔
    value = ⟨e.cipher.keyVersion, Base64.encode .base64 e.nonce.bytes,
      Base64.encode .base64 (gcm.ciphertext e.message),
      Base64.encode .base64 (gcm.tag e.message)⟩ := by
  constructor
  · rintro ⟨uses, uses', h⟩
    exact (Except.ok.inj (Prod.mk.inj h).1).symm
  · rintro rfl
    exact ⟨[], _, rfl⟩

theorem exists_returns (gcm : Gcm) (e : Encryption) : ∃ value, e.Returns gcm value :=
  ⟨_, returns_iff.mpr rfl⟩

variable {value : EncryptedValue}

theorem Returns.nonce (h : e.Returns gcm value) : Base64.decode value.nonce = e.message.nonce := by
  rw [returns_iff.mp h]
  exact Base64.decode_encode _ _

theorem Returns.ciphertext (h : e.Returns gcm value) :
    Base64.decode value.ciphertext = gcm.ciphertext e.message := by
  rw [returns_iff.mp h]
  exact Base64.decode_encode _ _

theorem Returns.authTag (h : e.Returns gcm value) :
    Base64.decode value.authTag = gcm.tag e.message := by
  rw [returns_iff.mp h]
  exact Base64.decode_encode _ _

end Encryption

/-! ## Decryption -/

/-- The fields decode to the same bytes; the strings may differ, and so may the versions. -/
structure EncryptedValue.SameBytes (value value' : EncryptedValue) : Prop where
  nonce : Base64.decode value.nonce = Base64.decode value'.nonce
  ciphertext : Base64.decode value.ciphertext = Base64.decode value'.ciphertext
  authTag : Base64.decode value.authTag = Base64.decode value'.authTag

@[ext] theorem Key.ext {k k' : Key} (h : k.bytes = k'.bytes) : k = k' := by
  cases k
  cases k'
  simpa using h

namespace CredentialCipher

variable {gcm : Gcm} {c : CredentialCipher} {value : EncryptedValue} {uses : List KeyUse}

/-- What `decrypt` ends in: the key is looked up, the length of the tag is checked, and the rest is
up to the algorithm. -/
theorem decrypt_eq : ((c.decrypt gcm value).run.run uses).1 =
    match c.keyForVersion value.keyVersion with
    | .error e => .error (.domain e)
    | .ok key =>
      if (Base64.decode value.authTag).length ≠ TAG_BYTES then
        .error (.domain ⟨.VALIDATION, JsString.lit "Invalid authentication tag length.", none⟩)
      else gcm.decipher key.bytes (Base64.decode value.nonce) (Base64.decode value.authTag)
        (Base64.decode value.ciphertext) := by
  rw [decrypt]
  rcases c.keyForVersion value.keyVersion with e | key
  · rfl
  · by_cases hlen : (Base64.decode value.authTag).length ≠ TAG_BYTES
    · simp only [if_pos hlen]
      rfl
    · simp only [if_neg hlen]
      rcases hopen : gcm.decipher key.bytes (Base64.decode value.nonce)
        (Base64.decode value.authTag) (Base64.decode value.ciphertext) with e | data
      · simp only [pure_bind, hopen]
        rfl
      · simp only [pure_bind, hopen]
        rfl

/-- Decryption needs a key for the version, a tag of full length, and an algorithm that opens. -/
theorem decrypt_ok_iff {data : Bytes} : ((c.decrypt gcm value).run.run uses).1 = .ok data ↔
    ∃ key, c.keyForVersion value.keyVersion = .ok key ∧
      (Base64.decode value.authTag).length = TAG_BYTES ∧
      gcm.decipher key.bytes (Base64.decode value.nonce) (Base64.decode value.authTag)
        (Base64.decode value.ciphertext) = .ok data := by
  rw [decrypt_eq]
  rcases c.keyForVersion value.keyVersion with e | key
  · simp
  · by_cases hlen : (Base64.decode value.authTag).length = TAG_BYTES
    · simp [hlen]
    · simp [hlen]

variable {past : Set Encryption}

/-- A value is decrypted to `data` if and only if some call of `encrypt` under the key of the
version was given `data` and returned the same bytes. -/
theorem decrypt_ok_iff_encrypted (hgcm : gcm.Ideal (Encryption.message '' past)) {data : Bytes} :
    ((c.decrypt gcm value).run.run uses).1 = .ok data ↔
      ∃ e ∈ past, ∃ stored, e.Returns gcm stored ∧
        c.keyForVersion value.keyVersion = .ok e.cipher.key ∧ value.SameBytes stored ∧
        e.plaintext.data = data := by
  rw [decrypt_ok_iff]
  constructor
  · rintro ⟨key, hkey, hlen, hopen⟩
    obtain ⟨_, ⟨e, he, rfl⟩, hk, hn, hc, hd, htag⟩ := hgcm.decipher_ok_iff.mp hopen
    obtain ⟨stored, hstored⟩ := Encryption.exists_returns gcm e
    have hfull : (gcm.tag e.message).length = TAG_BYTES := hgcm.tag_length _ ⟨e, he, rfl⟩
    refine ⟨e, he, stored, hstored, ?_, ⟨?_, ?_, ?_⟩, hd⟩
    · rw [hkey, Key.ext hk.symm]
    · rw [hstored.nonce, hn]
    · rw [hstored.ciphertext, hc]
    · rw [hstored.authTag]
      exact htag.eq (hlen.trans hfull.symm)
  · rintro ⟨e, he, stored, hstored, hkey, hsame, rfl⟩
    have hfull : (gcm.tag e.message).length = TAG_BYTES := hgcm.tag_length _ ⟨e, he, rfl⟩
    have htag : Base64.decode value.authTag = gcm.tag e.message :=
      hsame.authTag.trans hstored.authTag
    refine ⟨e.cipher.key, hkey, by rw [htag, hfull], hgcm.decipher_ok_iff.mpr
      ⟨e.message, ⟨e, he, rfl⟩, rfl, ?_, ?_, rfl, ?_⟩⟩
    · rw [hsame.nonce, hstored.nonce]
    · rw [hsame.ciphertext, hstored.ciphertext]
    · rw [htag]
      exact ⟨List.prefix_rfl, by rw [hfull]; decide⟩

/-- The ways to tamper with a stored value: the tag is changed in any way, or the tag is left as it
is and something else is changed, be it that the value is relabelled with a version of another
key. -/
inductive Tampered (gcm : Gcm) (c : CredentialCipher) (e : Encryption)
    (stored value : EncryptedValue) : Prop
  | authTag (h : Base64.decode value.authTag ≠ Base64.decode stored.authTag)
    (hkey : c.keyForVersion value.keyVersion = .ok e.cipher.key)
    (hnonce : Base64.decode value.nonce = Base64.decode stored.nonce)
    (hciphertext : Base64.decode value.ciphertext = Base64.decode stored.ciphertext)
  | nonce (h : Base64.decode value.nonce ≠ Base64.decode stored.nonce)
    (htag : Base64.decode value.authTag = Base64.decode stored.authTag)
  | ciphertext (h : Base64.decode value.ciphertext ≠ Base64.decode stored.ciphertext)
    (htag : Base64.decode value.authTag = Base64.decode stored.authTag)
  | keyVersion (h : c.keyForVersion value.keyVersion ≠ .ok e.cipher.key)
    (htag : Base64.decode value.authTag = Base64.decode stored.authTag)

/-- **Only what was encrypted is decrypted.** Whatever strings and version a value is made of, it is
decrypted to `data` only if a call of `encrypt` under the key of exactly that version was given
`data` and returned the same nonce, ciphertext and full tag; otherwise `decrypt` throws. So a stored
value that has been tampered with is always refused. -/
theorem authenticity (hgcm : gcm.Ideal (Encryption.message '' past)) (c : CredentialCipher)
    (value : EncryptedValue) (uses : List KeyUse) :
    (∀ data, ((c.decrypt gcm value).run.run uses).1 = .ok data →
      ∃ e ∈ past, ∃ stored, e.Returns gcm stored ∧
        c.keyForVersion value.keyVersion = .ok e.cipher.key ∧ value.SameBytes stored ∧
        (Base64.decode value.authTag).length = TAG_BYTES ∧ e.plaintext.data = data) ∧
      ∀ e ∈ past, ∀ stored, e.Returns gcm stored → Tampered gcm c e stored value →
        ∃ exn, ((c.decrypt gcm value).run.run uses).1 = .error exn := by
  constructor
  · intro data hdata
    obtain ⟨-, -, hlen, -⟩ := decrypt_ok_iff.mp hdata
    obtain ⟨e, he, stored, hstored, hkey, hsame, hd⟩ := (decrypt_ok_iff_encrypted hgcm).mp hdata
    exact ⟨e, he, stored, hstored, hkey, hsame, hlen, hd⟩
  · intro e he stored hstored htampered
    rcases hdecrypt : ((c.decrypt gcm value).run.run uses).1 with exn | data
    · exact ⟨exn, rfl⟩
    · exfalso
      -- the value is that of another message, and the tags tell the two apart
      obtain ⟨e', he', stored', hstored', hkey', hsame, -⟩ :=
        (decrypt_ok_iff_encrypted hgcm).mp hdecrypt
      have htags := hgcm.tag_eq_iff _ ⟨e, he, rfl⟩ _ ⟨e', he', rfl⟩
      rw [← hstored.authTag, ← hstored'.authTag, ← hsame.authTag, ← hstored.nonce,
        ← hstored'.nonce, ← hsame.nonce, ← hstored.ciphertext, ← hstored'.ciphertext,
        ← hsame.ciphertext] at htags
      rcases htampered with ⟨h, hkey, hnonce, hciphertext⟩ | ⟨h, htag⟩ | ⟨h, htag⟩ | ⟨h, htag⟩
      · have hkeys : e.cipher.key = e'.cipher.key := Except.ok.inj (hkey.symm.trans hkey')
        exact h (htags.mpr ⟨congrArg Key.bytes hkeys, hnonce.symm, hciphertext.symm⟩).symm
      · exact h (htags.mp htag.symm).2.1.symm
      · exact h (htags.mp htag.symm).2.2.symm
      · exact h (by rw [hkey', Key.ext (htags.mp htag.symm).1])

end CredentialCipher

/-! The zero block again, sealed once; its tag cut off to twelve bytes would still verify, and is
refused. -/

/-- The algorithm that has sealed the zero block. -/
def zeroBlockGcm : Gcm where
  encipher := zeroGcm.encipher
  decipher key nonce tag ciphertext :=
    if key = .replicate 32 0 ∧ nonce = .replicate 12 0 ∧ ciphertext = zeroCiphertext ∧
        Gcm.Verifies tag zeroTag then .ok (.replicate 16 0)
    else .error (.error (JsString.lit "Unsupported state or unable to authenticate data") [])

/-- The call that sealed it. -/
def zeroEncryption : Encryption where
  cipher := ⟨⟨.replicate 32 0, rfl⟩, 1, ∅⟩
  nonce := ⟨.replicate 12 0, rfl⟩
  plaintext := .buffer (.replicate 16 0)

theorem zeroBlockGcm_ideal : zeroBlockGcm.Ideal (Encryption.message '' {zeroEncryption}) := by
  rw [Set.image_singleton]
  constructor
  · rintro m rfl
    rfl
  · intro key nonce tag ciphertext data
    rw [zeroBlockGcm]
    dsimp only
    constructor
    · intro h
      split at h
      · next hzero =>
        obtain ⟨rfl, rfl, rfl, htag⟩ := hzero
        exact ⟨_, rfl, rfl, rfl, rfl, Except.ok.inj h, htag⟩
      · simp at h
    · rintro ⟨m, rfl, rfl, rfl, rfl, rfl, htag⟩
      exact if_pos ⟨rfl, rfl, rfl, htag⟩
  · rintro m rfl m' rfl
    simp

/-- The stored zero block, with some tag. -/
def zeroValue (tag : Bytes) : EncryptedValue where
  keyVersion := 1
  nonce := Base64.encode .base64 (.replicate 12 0)
  ciphertext := Base64.encode .base64 zeroCiphertext
  authTag := Base64.encode .base64 tag

theorem authenticity_zeroValue :
    Gcm.Verifies (zeroTag.take 12) zeroTag ∧
      ∃ exn, ((zeroEncryption.cipher.decrypt zeroBlockGcm (zeroValue (zeroTag.take 12))).run.run
        []).1 = .error exn := by
  refine ⟨by decide, (CredentialCipher.authenticity zeroBlockGcm_ideal zeroEncryption.cipher
    (zeroValue (zeroTag.take 12)) []).2 zeroEncryption rfl (zeroValue zeroTag)
    (Encryption.returns_iff.mpr rfl) (.authTag ?_ rfl rfl rfl)⟩
  rw [zeroValue, zeroValue, Base64.decode_encode, Base64.decode_encode]
  decide

end NativeKiln
