import NativeKiln.Codec.Base64
import NativeKiln.Codec.Utf8
import NativeKiln.Shared.Errors
import Mathlib.Data.List.AList
import Mathlib.Data.List.Sort

/-!
# Credentials at rest

`packages/credentials/src/index.ts`: a `CredentialCipher` seals with its current key and opens with
the key of the version a value names, which is the current one or one of `previousKeys`. AES-256-GCM
itself is a parameter; what is relied on is that opening inverts sealing (`Gcm.Lawful`).

A rotation makes a new key current and moves the old one to the previous keys. The main result is
about any number of rotations: what any earlier cipher has sealed the latest one opens, and a
version that was never in use is refused before a key is touched (`KeyHistory.rotation`).
-/

namespace NativeKiln

open JsString (lit)

/-! ## Objects with numbers as property names

The previous keys are given as an object, so their versions become property names and are read back
with `Number`. Versions are integers, as in the column they are stored in. -/

/-- An object from integers to strings: its properties in the order they were written. -/
structure NumberRecord where
  /-- The properties. -/
  properties : List (ℤ × JsString)
  /-- An object has a property once. -/
  nodup : (properties.map Prod.fst).Nodup

/-- A property name that is an array index; such names are enumerated first and in order. -/
def isArrayIndex (n : ℤ) : Bool := 0 ≤ n && n < 2 ^ 32 - 1

/-- The order in which the properties are enumerated. -/
def NumberRecord.ownProperties (r : NumberRecord) : List (ℤ × JsString) :=
  (r.properties.filter fun p ↦ isArrayIndex p.1).insertionSort (fun p q ↦ p.1 ≤ q.1)
    ++ r.properties.filter fun p ↦ !isArrayIndex p.1

/-- `Object.entries`. -/
def NumberRecord.entries (r : NumberRecord) : List (JsString × JsString) :=
  r.ownProperties.map fun p ↦ (JsString.ofInt p.1, p.2)

theorem NumberRecord.ownProperties_perm (r : NumberRecord) :
    r.ownProperties.Perm r.properties :=
  ((List.perm_insertionSort ..).append_right _).trans (List.filter_append_perm _ _)

/-! ## AES-256-GCM -/

/-- The length of a nonce. -/
def NONCE_BYTES : ℕ := 12

/-- The length of an authentication tag. -/
def TAG_BYTES : ℕ := 16

/-- The length of a key. -/
def KEY_BYTES : ℕ := 32

/-- A key of the right length. -/
structure Key where
  /-- Its bytes. -/
  bytes : Bytes
  /-- There are 32 of them. -/
  length_eq : bytes.length = KEY_BYTES

/-- What `randomBytes(NONCE_BYTES)` returns. -/
structure Nonce where
  /-- Its bytes. -/
  bytes : Bytes
  /-- There are 12 of them. -/
  length_eq : bytes.length = NONCE_BYTES

/-- The algorithm, as the cipher and decipher objects of `node:crypto` carry it out. -/
structure Gcm where
  /-- Ciphertext and tag for a key, a nonce and the data. -/
  encipher : Bytes → Bytes → Bytes → Bytes × Bytes
  /-- The data for a key, a nonce, a tag and a ciphertext, or what `final` throws. -/
  decipher : Bytes → Bytes → Bytes → Bytes → Except Exn Bytes

/-- Tags are 16 bytes long, and opening under the same key and nonce inverts sealing. -/
structure Gcm.Lawful (gcm : Gcm) : Prop where
  /-- The length of a tag. -/
  tag_length : ∀ (key : Key) (nonce : Nonce) (data : Bytes),
    (gcm.encipher key.bytes nonce.bytes data).2.length = TAG_BYTES
  /-- Opening inverts sealing. -/
  decipher_encipher : ∀ (key : Key) (nonce : Nonce) (data : Bytes),
    gcm.decipher key.bytes nonce.bytes (gcm.encipher key.bytes nonce.bytes data).2
      (gcm.encipher key.bytes nonce.bytes data).1 = .ok data

/-- A key handed to `node:crypto`. -/
inductive KeyUse
  | createCipheriv (key nonce : Bytes)
  | createDecipheriv (key nonce : Bytes)

/-- Code that may throw and that uses keys, with the uses in order. -/
abbrev KeyM := ExceptT Exn (StateM (List KeyUse))

/-- Note the use of a key. -/
def useKey (u : KeyUse) : KeyM Unit := modify (· ++ [u])

/-! ## The cipher -/

structure EncryptedValue where
  keyVersion : ℤ
  nonce : JsString
  ciphertext : JsString
  authTag : JsString

/-- What can be encrypted: `string | Buffer`. -/
inductive Plaintext
  | string (s : JsString)
  | buffer (b : Bytes)

/-- The bytes to encrypt. -/
def Plaintext.data : Plaintext → Bytes
  | string s => s.utf8
  | buffer b => b

/-- `/^[0-9a-fA-F]{64}$/`. -/
def isHexKey (s : JsString) : Bool := s.length == 64 && s.all fun u ↦ (Hex.digitOf u).isSome

def parseKey (hexKey : JsString) : Except DomainError Key :=
  if !isHexKey hexKey then
    throw (ConfigurationError (lit "CREDENTIAL_MASTER_KEY must be 64 hex characters (32 bytes)."))
  else
    let key := Hex.decode hexKey
    if h : key.length = KEY_BYTES then pure ⟨key, h⟩
    else throw (ConfigurationError (lit "CREDENTIAL_MASTER_KEY must decode to 32 bytes."))

/-- The parameters of the constructor. -/
structure CipherParams where
  masterKeyHex : JsString
  keyVersion : ℤ
  previousKeys : Option NumberRecord

/-- The properties of the previous keys; without the parameter there are none. -/
def CipherParams.previous (params : CipherParams) : List (ℤ × JsString) :=
  (params.previousKeys.map NumberRecord.properties).getD []

structure CredentialCipher where
  key : Key
  keyVersion : ℤ
  /-- A `Map`, keyed by what `Number` made of a property name. -/
  previousKeys : AList fun _ : Option ℤ ↦ Key

namespace CredentialCipher

/-- The loop of the constructor over the entries of `previousKeys`. -/
def setPrevious (entries : List (JsString × JsString)) (map : AList fun _ : Option ℤ ↦ Key) :
    Except DomainError (AList fun _ : Option ℤ ↦ Key) :=
  entries.foldlM (fun map e ↦ return map.insert e.1.toInt? (← parseKey e.2)) map

/-- `new CredentialCipher(params)`. -/
def new (params : CipherParams) : Except DomainError CredentialCipher := do
  let key ← parseKey params.masterKeyHex
  let entries := (params.previousKeys.map NumberRecord.entries).getD []
  let previousKeys ← setPrevious entries ∅
  return { key, keyVersion := params.keyVersion, previousKeys }

/-- The error for a version without a key. -/
def noKeyAvailable (version : ℤ) : DomainError :=
  ⟨.CONFIGURATION,
    lit "No key available for credential key version " ++ JsString.ofInt version ++ lit ".", none⟩

def keyForVersion (c : CredentialCipher) (version : ℤ) : Except DomainError Key :=
  if version = c.keyVersion then pure c.key
  else match c.previousKeys.lookup (some version) with
    | some previous => pure previous
    | none => throw (noKeyAvailable version)

variable (gcm : Gcm)

/-- `encrypt`, with the nonce that `randomBytes` returned. -/
def encrypt (c : CredentialCipher) (nonce : Nonce) (plaintext : Plaintext) :
    KeyM EncryptedValue := do
  useKey (.createCipheriv c.key.bytes nonce.bytes)
  let data := plaintext.data
  let (ciphertext, authTag) := gcm.encipher c.key.bytes nonce.bytes data
  return {
    keyVersion := c.keyVersion
    nonce := Base64.encode .base64 nonce.bytes
    ciphertext := Base64.encode .base64 ciphertext
    authTag := Base64.encode .base64 authTag }

def decrypt (c : CredentialCipher) (value : EncryptedValue) : KeyM Bytes := do
  let key ← match c.keyForVersion value.keyVersion with
    | .ok key => pure key
    | .error e => throw (.domain e)
  let nonce := Base64.decode value.nonce
  let authTag := Base64.decode value.authTag
  if authTag.length ≠ TAG_BYTES then
    throw (.domain ⟨.VALIDATION, lit "Invalid authentication tag length.", none⟩)
  useKey (.createDecipheriv key.bytes nonce)
  let ciphertext := Base64.decode value.ciphertext
  match gcm.decipher key.bytes nonce authTag ciphertext with
  | .ok data => return data
  | .error e => throw e

def decryptString (c : CredentialCipher) (value : EncryptedValue) : KeyM JsString := do
  return Utf8.toString (← c.decrypt gcm value)

end CredentialCipher

/-! ## Looking up a key -/

theorem parseKey_ok {s : JsString} (h : isHexKey s) :
    ∃ key, parseKey s = .ok key ∧ key.bytes = Hex.decode s := by
  have hlen : (Hex.decode s).length = KEY_BYTES := by
    rw [isHexKey, Bool.and_eq_true, beq_iff_eq, List.all_eq_true] at h
    rw [Hex.length_decode h.2, h.1]
    rfl
  refine ⟨⟨Hex.decode s, hlen⟩, ?_, rfl⟩
  rw [parseKey, if_neg (by simpa using h), dif_pos hlen]
  rfl

namespace CredentialCipher

/-- Filling the map from distinct versions with hexadecimal keys succeeds; each of the versions is
then found under its key, and nothing changes for the others. -/
theorem setPrevious_ok {props : List (ℤ × JsString)} (hnd : (props.map Prod.fst).Nodup)
    (hhex : ∀ p ∈ props, isHexKey p.2) (map : AList fun _ : Option ℤ ↦ Key) :
    ∃ map', setPrevious (props.map fun p ↦ (JsString.ofInt p.1, p.2)) map = .ok map' ∧
      (∀ p ∈ props, ∀ key, parseKey p.2 = .ok key → map'.lookup (some p.1) = some key) ∧
      ∀ v, v ∉ props.map Prod.fst → map'.lookup (some v) = map.lookup (some v) := by
  induction props generalizing map with
  | nil => exact ⟨map, rfl, by simp, fun _ _ ↦ rfl⟩
  | cons p props ih =>
    rw [List.map_cons, List.nodup_cons] at hnd
    obtain ⟨key, hkey, -⟩ := parseKey_ok (hhex p List.mem_cons_self)
    obtain ⟨map', hmap', hin, hout⟩ :=
      ih hnd.2 (fun q hq ↦ hhex q (List.mem_cons_of_mem p hq)) (map.insert (some p.1) key)
    refine ⟨map', ?_, ?_, ?_⟩
    · rw [setPrevious] at hmap' ⊢
      rw [List.map_cons, List.foldlM_cons, JsString.toInt?_ofInt, hkey]
      exact hmap'
    · intro q hq key' hkey'
      rcases List.mem_cons.mp hq with rfl | hq
      · rw [hout q.1 hnd.1, AList.lookup_insert, ← Except.ok.inj (hkey.symm.trans hkey')]
      · exact hin q hq key' hkey'
    · intro v hv
      rw [List.map_cons, List.mem_cons, not_or] at hv
      rw [hout v hv.2, AList.lookup_insert_ne fun h ↦ hv.1 (Option.some_inj.mp h)]

/-- A cipher built from hexadecimal keys, none of the previous ones for the current version, finds
the key of each of its versions and refuses every other version. -/
theorem new_ok {params : CipherParams} (hkey : isHexKey params.masterKeyHex)
    (hprev : ∀ p ∈ params.previous, isHexKey p.2 ∧ p.1 ≠ params.keyVersion) :
    ∃ c, new params = .ok c ∧ c.keyVersion = params.keyVersion ∧
      parseKey params.masterKeyHex = .ok c.key ∧
      (∀ p ∈ params.previous, ∀ key, parseKey p.2 = .ok key → c.keyForVersion p.1 = .ok key) ∧
      ∀ v, v ≠ params.keyVersion → v ∉ params.previous.map Prod.fst →
        c.keyForVersion v = .error (noKeyAvailable v) := by
  obtain ⟨key, hparse, -⟩ := parseKey_ok hkey
  obtain ⟨props, hperm, hnd, hentries⟩ : ∃ props : List (ℤ × JsString),
      props.Perm params.previous ∧ (props.map Prod.fst).Nodup ∧
      (params.previousKeys.map NumberRecord.entries).getD []
        = props.map fun p ↦ (JsString.ofInt p.1, p.2) := by
    rw [CipherParams.previous]
    cases params.previousKeys with
    | none => exact ⟨[], List.Perm.refl _, List.nodup_nil, rfl⟩
    | some r =>
      exact ⟨_, r.ownProperties_perm, (r.ownProperties_perm.map _).nodup_iff.mpr r.nodup, rfl⟩
  obtain ⟨map, hmap, hin, hout⟩ :=
    setPrevious_ok hnd (fun p hp ↦ (hprev p (hperm.mem_iff.mp hp)).1) ∅
  refine ⟨⟨key, params.keyVersion, map⟩, ?_, rfl, hparse, ?_, ?_⟩
  · simp only [new, hparse, hentries]
    exact congrArg (Except.map _) hmap
  · intro p hp key' hkey'
    rw [keyForVersion, if_neg (hprev p hp).2, hin p (hperm.mem_iff.mpr hp) key' hkey']
    rfl
  · intro v hv hnot
    rw [keyForVersion, if_neg hv, hout v fun h ↦ hnot ((hperm.map _).mem_iff.mp h)]
    rfl

/-- What one cipher has sealed, another opens whose key for that version is the same. -/
theorem decrypt_encrypt {gcm : Gcm} (hgcm : gcm.Lawful) {c d : CredentialCipher}
    (h : d.keyForVersion c.keyVersion = .ok c.key) (nonce : Nonce) (plaintext : Plaintext)
    (uses : List KeyUse) :
    ∃ value uses', (c.encrypt gcm nonce plaintext).run.run uses = (.ok value, uses') ∧
      value.keyVersion = c.keyVersion ∧
      ∀ uses, ((d.decrypt gcm value).run.run uses).1 = .ok plaintext.data := by
  have htag := hgcm.tag_length c.key nonce plaintext.data
  have hopen := hgcm.decipher_encipher c.key nonce plaintext.data
  refine ⟨⟨c.keyVersion, Base64.encode .base64 nonce.bytes,
    Base64.encode .base64 (gcm.encipher c.key.bytes nonce.bytes plaintext.data).1,
    Base64.encode .base64 (gcm.encipher c.key.bytes nonce.bytes plaintext.data).2⟩,
    _, rfl, rfl, fun uses ↦ ?_⟩
  simp only [decrypt, h, Base64.decode_encode, htag, pure_bind, ne_eq, not_true_eq_false,
    if_false, hopen]
  rfl

theorem decrypt_refused {gcm : Gcm} {c : CredentialCipher} {value : EncryptedValue}
    (h : c.keyForVersion value.keyVersion = .error (noKeyAvailable value.keyVersion))
    (uses : List KeyUse) :
    (c.decrypt gcm value).run.run uses
      = (.error (.domain (noKeyAvailable value.keyVersion)), uses) := by
  simp only [decrypt, h]
  rfl

end CredentialCipher

/-! ## Rotations -/

/-- The keys in the order they became current: versions are never used again, and every key is
written as 64 hexadecimal digits. -/
structure KeyHistory where
  /-- Versions and keys. -/
  pairs : List (ℤ × JsString)
  /-- No version comes twice. -/
  nodup : (pairs.map Prod.fst).Nodup
  /-- Keys are hexadecimal. -/
  hex : ∀ p ∈ pairs, isHexKey p.2

namespace KeyHistory

variable (h : KeyHistory)

/-- The parameters a cipher is built from after rotation `j`: the `j`-th pair is current, and the
earlier ones are previous, written in any order. -/
structure IsStage (j : Fin h.pairs.length) (params : CipherParams) : Prop where
  /-- The key in use. -/
  masterKeyHex : params.masterKeyHex = h.pairs[j].2
  /-- Its version. -/
  keyVersion : params.keyVersion = h.pairs[j].1
  /-- The keys used before. -/
  previous : params.previous.Perm (h.pairs.take j)

variable {h} {i j : Fin h.pairs.length} {params : CipherParams}

theorem IsStage.exists_index (hj : h.IsStage j params) {p : ℤ × JsString}
    (hp : p ∈ params.previous) : ∃ i < j, h.pairs[i] = p := by
  obtain ⟨n, hn, rfl⟩ := List.mem_iff_getElem.mp (hj.previous.mem_iff.mp hp)
  rw [List.length_take, lt_inf_iff] at hn
  exact ⟨⟨n, hn.2⟩, hn.1, by simp⟩

theorem version_ne (hij : i < j) : h.pairs[i].1 ≠ h.pairs[j].1 := by
  intro heq
  have hget :
      (h.pairs.map Prod.fst).get ⟨i, by simp⟩ = (h.pairs.map Prod.fst).get ⟨j, by simp⟩ := by
    simpa using heq
  exact hij.ne (Fin.ext (Fin.mk.inj_iff.mp (h.nodup.get_inj_iff.mp hget)))

/-- The cipher of stage `j` finds the key of every version up to `j` and refuses the others. -/
theorem IsStage.keys (hj : h.IsStage j params) :
    ∃ c, CredentialCipher.new params = .ok c ∧ c.keyVersion = h.pairs[j].1 ∧
      parseKey h.pairs[j].2 = .ok c.key ∧
      (∀ i ≤ j, ∀ key, parseKey h.pairs[i].2 = .ok key →
        c.keyForVersion h.pairs[i].1 = .ok key) ∧
      ∀ v, v ∉ (h.pairs.take (j + 1)).map Prod.fst →
        c.keyForVersion v = .error (CredentialCipher.noKeyAvailable v) := by
  have hprev : ∀ p ∈ params.previous, isHexKey p.2 ∧ p.1 ≠ params.keyVersion := by
    intro p hp
    obtain ⟨i, hij, rfl⟩ := hj.exists_index hp
    rw [hj.keyVersion]
    exact ⟨h.hex _ (List.getElem_mem _), version_ne hij⟩
  obtain ⟨c, hc, hv, hkey, hin, hout⟩ := CredentialCipher.new_ok
    (by rw [hj.masterKeyHex]; exact h.hex _ (List.getElem_mem _)) hprev
  rw [hj.masterKeyHex] at hkey
  rw [hj.keyVersion] at hv hout
  refine ⟨c, hc, hv, hkey, fun i hij key hk ↦ ?_, fun v hnot ↦ ?_⟩
  · rcases hij.lt_or_eq with hlt | rfl
    · refine hin _ (hj.previous.mem_iff.mpr ?_) key hk
      exact List.mem_take_iff_getElem.mpr ⟨i, by omega, rfl⟩
    · rw [← Except.ok.inj (hkey.symm.trans hk), ← hv, CredentialCipher.keyForVersion, if_pos rfl]
      rfl
  · rw [List.take_add_one, List.map_append, List.mem_append, not_or] at hnot
    refine hout v (fun he ↦ hnot.2 ?_) fun hm ↦ hnot.1 ((hj.previous.map _).mem_iff.mp hm)
    simp [he]

/-- **Credentials survive rotations.** The cipher after rotation `j` opens whatever a cipher of
rotation `i ≤ j` has sealed, to exactly the bytes that went in; a value that names any other version
is refused with a configuration error before a key is used. -/
theorem rotation {gcm : Gcm} (hgcm : gcm.Lawful) (h : KeyHistory) (j : Fin h.pairs.length)
    (params : CipherParams) (hj : h.IsStage j params) :
    ∃ c, CredentialCipher.new params = .ok c ∧
      (∀ i ≤ j, ∀ params', h.IsStage i params' → ∃ c', CredentialCipher.new params' = .ok c' ∧
        ∀ nonce plaintext uses, ∃ value uses',
          (c'.encrypt gcm nonce plaintext).run.run uses = (.ok value, uses') ∧
          value.keyVersion = h.pairs[i].1 ∧
          ∀ uses, ((c.decrypt gcm value).run.run uses).1 = .ok plaintext.data) ∧
      ∀ value : EncryptedValue, value.keyVersion ∉ (h.pairs.take (j + 1)).map Prod.fst →
        ∀ uses, (c.decrypt gcm value).run.run uses
          = (.error (.domain (CredentialCipher.noKeyAvailable value.keyVersion)), uses) := by
  obtain ⟨c, hc, -, -, hin, hout⟩ := hj.keys
  refine ⟨c, hc, fun i hij params' hi ↦ ?_, fun value hv ↦ ?_⟩
  · obtain ⟨c', hc', hv', hkey', -, -⟩ := hi.keys
    refine ⟨c', hc', fun nonce plaintext uses ↦ ?_⟩
    rw [← hv']
    exact CredentialCipher.decrypt_encrypt hgcm (by rw [hv']; exact hin i hij _ hkey') ..
  · exact CredentialCipher.decrypt_refused (hout _ hv)

end KeyHistory

/-! A run of the rotation theorem: one rotation, over a lawful algorithm that agrees with
AES-256-GCM on the zero block under the zero key and nonce. -/

/-- The ciphertext of the zero block. -/
def zeroCiphertext : Bytes :=
  [206, 167, 64, 61, 77, 96, 107, 110, 7, 78, 197, 211, 186, 243, 157, 24]

/-- The tag of the zero block. -/
def zeroTag : Bytes :=
  [208, 209, 200, 167, 153, 153, 107, 240, 38, 91, 152, 181, 212, 138, 185, 25]

/-- The algorithm that knows the zero block and copies all other data. -/
def zeroGcm : Gcm where
  encipher key nonce data :=
    if key = .replicate 32 0 ∧ nonce = .replicate 12 0 ∧ data = .replicate 16 0 then
      (zeroCiphertext, zeroTag)
    else (data, .replicate 16 0)
  decipher key nonce tag ciphertext :=
    if tag = .replicate 16 0 then .ok ciphertext
    else if key = .replicate 32 0 ∧ nonce = .replicate 12 0 ∧ tag = zeroTag
        ∧ ciphertext = zeroCiphertext then .ok (.replicate 16 0)
    else .error (.error (lit "Unsupported state or unable to authenticate data") [])

theorem zeroGcm_lawful : zeroGcm.Lawful := by
  constructor
  · intro key nonce data
    rw [zeroGcm]
    dsimp only
    split <;> rfl
  · intro key nonce data
    by_cases h : key.bytes = .replicate 32 0 ∧ nonce.bytes = .replicate 12 0
        ∧ data = .replicate 16 0
    · obtain ⟨hk, hn, rfl⟩ := h
      rw [hk, hn]
      rfl
    · simp only [zeroGcm, if_neg h, if_true]

/-- The zero key, then another. -/
def twoKeys : KeyHistory where
  pairs := [(1, .replicate 64 48), (2, .replicate 64 97)]
  nodup := by decide
  hex := by decide

theorem rotation_twoKeys :
    ∃ c c', CredentialCipher.new ⟨.replicate 64 97, 2, some ⟨[(1, .replicate 64 48)], by decide⟩⟩
          = .ok c ∧
      CredentialCipher.new ⟨.replicate 64 48, 1, none⟩ = .ok c' ∧
      ∃ value uses,
        (c'.encrypt zeroGcm ⟨.replicate 12 0, rfl⟩ (.buffer (.replicate 16 0))).run.run [] =
          (.ok value, uses) ∧
        ((c.decrypt zeroGcm value).run.run []).1 = .ok (.replicate 16 0) := by
  obtain ⟨c, hc, hopen, -⟩ := KeyHistory.rotation zeroGcm_lawful twoKeys ⟨1, by decide⟩
    ⟨.replicate 64 97, 2, some ⟨[(1, .replicate 64 48)], by decide⟩⟩ ⟨rfl, rfl, .refl _⟩
  obtain ⟨c', hc', hseal⟩ := hopen ⟨0, by decide⟩ (by decide) ⟨.replicate 64 48, 1, none⟩
    ⟨rfl, rfl, .refl _⟩
  obtain ⟨value, uses, henc, -, hdec⟩ :=
    hseal ⟨.replicate 12 0, rfl⟩ (.buffer (.replicate 16 0)) []
  exact ⟨c, c', hc, hc', value, uses, henc, hdec []⟩

/-! ## Strings -/

namespace CredentialCipher

theorem keyForVersion_self (c : CredentialCipher) : c.keyForVersion c.keyVersion = .ok c.key := by
  rw [keyForVersion, if_pos rfl]
  rfl

theorem run_decryptString {gcm : Gcm} {c : CredentialCipher} {value : EncryptedValue} {data : Bytes}
    {uses : List KeyUse} (h : ((c.decrypt gcm value).run.run uses).1 = .ok data) :
    ((c.decryptString gcm value).run.run uses).1 = .ok (Utf8.toString data) := by
  have hrun : (c.decrypt gcm value).run.run uses
      = (.ok data, ((c.decrypt gcm value).run.run uses).2) := Prod.ext h rfl
  rw [decryptString, ExceptT.run_bind, StateT.run_bind, hrun]
  rfl

/-- **The way of a string.** What a cipher has sealed it opens to the string that went in, with
every unpaired surrogate replaced by U+FFFD; so to that string itself exactly when no surrogate of
it stands alone. -/
theorem decryptString_encrypt (gcm : Gcm) (hgcm : gcm.Lawful) (c : CredentialCipher) (nonce : Nonce)
    (s : JsString) (uses : List KeyUse) :
    ∃ value uses', (c.encrypt gcm nonce (.string s)).run.run uses = (.ok value, uses') ∧
      (∀ uses, ((c.decryptString gcm value).run.run uses).1 = .ok s.toWellFormed) ∧
      (s.toWellFormed = s ↔ s.wellFormed) := by
  obtain ⟨value, uses', henc, -, hdec⟩ :=
    decrypt_encrypt hgcm c.keyForVersion_self nonce (.string s) uses
  refine ⟨value, uses', henc, fun uses ↦ ?_, JsString.toWellFormed_eq_self_iff⟩
  rw [run_decryptString (hdec uses), Plaintext.data, Utf8.toString_utf8]

/-- A byte-order mark, a NUL and a letter, then an unpaired surrogate. -/
theorem decryptString_encrypt_surrogate :
    ∃ value uses, (encrypt zeroGcm ⟨⟨.replicate 32 0, rfl⟩, 1, ∅⟩ ⟨.replicate 12 0, rfl⟩
          (.string [0xFEFF, 0, 65, 0xD800])).run.run [] = (.ok value, uses) ∧
      (∀ uses, ((decryptString zeroGcm ⟨⟨.replicate 32 0, rfl⟩, 1, ∅⟩ value).run.run uses).1
        = .ok (JsString.toWellFormed [0xFEFF, 0, 65, 0xD800])) ∧
      (JsString.toWellFormed [0xFEFF, 0, 65, 0xD800] = [0xFEFF, 0, 65, 0xD800] ↔
        JsString.wellFormed [0xFEFF, 0, 65, 0xD800]) :=
  decryptString_encrypt zeroGcm zeroGcm_lawful _ _ _ []

end CredentialCipher

/-! ## Comparing secrets -/

/-- `timingSafeEqual`, which throws on buffers of different length. -/
def timingSafeEqual (a b : Bytes) : Except Exn Bool :=
  if a.length = b.length then pure (a == b)
  else throw (.error (lit "Input buffers must have the same byte length") [])

/-- `safeEquals`, of the buffers made of its arguments. -/
def safeEqualsBuffers (bufA bufB : Bytes) : Except Exn Bool :=
  if bufA.length ≠ bufB.length then pure false else timingSafeEqual bufA bufB

def safeEquals (a b : JsString) : Except Exn Bool := safeEqualsBuffers a.utf8 b.utf8

theorem safeEqualsBuffers_ok (a b : Bytes) : safeEqualsBuffers a b = .ok (a == b) := by
  rw [safeEqualsBuffers]
  by_cases hlen : a.length = b.length
  · rw [if_neg (not_not.mpr hlen), timingSafeEqual, if_pos hlen]
    rfl
  · have hne : (a == b) = false := beq_false_of_ne fun h ↦ hlen (congrArg List.length h)
    rw [if_pos hlen, hne]
    rfl

theorem safeEquals_ok (a b : JsString) : safeEquals a b = .ok (a.utf8 == b.utf8) :=
  safeEqualsBuffers_ok _ _

/-- **Comparing is equality.** The comparison never throws, and it tells apart exactly the strings
that differ after every unpaired surrogate is replaced by U+FFFD; of strings without unpaired
surrogates, exactly those that differ. -/
theorem safeEquals_iff (a b : JsString) :
    ∃ r, safeEquals a b = .ok r ∧ (r = true ↔ a.toWellFormed = b.toWellFormed) ∧
      (a.wellFormed → b.wellFormed → (r = true ↔ a = b)) := by
  have heq : (a.utf8 == b.utf8) = true ↔ a.toWellFormed = b.toWellFormed := by
    rw [beq_iff_eq, JsString.utf8_eq_iff_toWellFormed]
  refine ⟨_, safeEquals_ok a b, heq, fun ha hb ↦ ?_⟩
  rw [heq, JsString.toWellFormed_eq_self_iff.mpr ha, JsString.toWellFormed_eq_self_iff.mpr hb]

end NativeKiln
