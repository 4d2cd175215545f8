import Shelly.Framework.Bincode

namespace Shelly.Daemon

abbrev Key := Vector UInt8 32

abbrev Nonce := Vector UInt8 24

/-- The authenticated cipher. -/
structure Aead where
  encrypt : Key → Nonce → List UInt8 → Option (List UInt8)
  decrypt : Key → Nonce → List UInt8 → Option (List UInt8)

/-- It decrypts what it encrypted, and its ciphertext ends in a tag of sixteen bytes. -/
structure Aead.Lawful (A : Aead) : Prop where
  decrypt_encrypt : ∀ {key nonce plaintext ciphertext},
    A.encrypt key nonce plaintext = some ciphertext → A.decrypt key nonce ciphertext = some plaintext
  length_encrypt : ∀ {key nonce plaintext ciphertext},
    A.encrypt key nonce plaintext = some ciphertext → ciphertext.length = plaintext.length + 16

/-- It rejects what was encrypted with another key. -/
def Aead.Authentic (A : Aead) : Prop :=
  ∀ {key key' nonce plaintext ciphertext}, A.encrypt key nonce plaintext = some ciphertext →
    key' ≠ key → A.decrypt key' nonce ciphertext = none

structure EncryptedBlob where
  nonce : Nonce
  ciphertext : List UInt8
  deriving DecidableEq

structure PlaintextBlob where
  plaintext : List UInt8
  deriving DecidableEq

def bytesCodec : Codec (List UInt8) := Codec.list Bincode.length Codec.byte

/-- The nonce has a fixed length and is written without it. -/
def EncryptedBlob.codec : Codec EncryptedBlob :=
  ((Codec.raw 24).pair bytesCodec).imap (fun p => some ⟨p.1, p.2⟩)
    (fun blob => (blob.nonce, blob.ciphertext)) fun _ => rfl

def PlaintextBlob.codec : Codec PlaintextBlob :=
  bytesCodec.imap (fun l => some ⟨l⟩) PlaintextBlob.plaintext fun _ => rfl

inductive PersistenceMode
  | encrypted (key : Key)
  | plaintext (legacyKey : Option Key)
  deriving DecidableEq

/-- `FWP1` and a zero byte. -/
def plaintextPrefix : List UInt8 := [0x46, 0x57, 0x50, 0x31, 0]

variable {A : Aead} {mode : PersistenceMode} {nonce : Nonce} {plaintext payload : List UInt8}

def encrypt (A : Aead) (key : Key) (nonce : Nonce) (plaintext : List UInt8) :
    Except String EncryptedBlob :=
  match A.encrypt key nonce plaintext with
  | some ciphertext => .ok ⟨nonce, ciphertext⟩
  | none => .error "encrypt stored session"

def decrypt (A : Aead) (key : Key) (blob : EncryptedBlob) : Except String (List UInt8) :=
  match A.decrypt key blob.nonce blob.ciphertext with
  | some plaintext => .ok plaintext
  | none => .error "decrypt stored session"

/-- The nonce is the one that the generator returns for this call. -/
def encodePayload (A : Aead) (mode : PersistenceMode) (nonce : Nonce) (plaintext : List UInt8) :
    Except String (List UInt8) :=
  match mode with
  | .encrypted key =>
    match encrypt A key nonce plaintext with
    | .error e => .error e
    | .ok blob =>
      match EncryptedBlob.codec.encode blob with
      | some payload => .ok payload
      | none => .error "serialize encrypted payload"
  | .plaintext _ =>
    match PlaintextBlob.codec.encode ⟨plaintext⟩ with
    | some encoded => .ok (plaintextPrefix ++ encoded)
    | none => .error "serialize plaintext payload"

def decodePlaintextPayload (payload : List UInt8) : Except String (Option (List UInt8)) :=
  if plaintextPrefix.isPrefixOf payload then
    match PlaintextBlob.codec.decodeAll (payload.drop plaintextPrefix.length) with
    | some blob => .ok (some blob.plaintext)
    | none => .error "decode plaintext stored payload"
  else .ok none

def decodePayload (A : Aead) (mode : PersistenceMode) (payload : List UInt8) :
    Except String (List UInt8) :=
  match decodePlaintextPayload payload with
  | .error e => .error e
  | .ok (some plaintext) => .ok plaintext
  | .ok none =>
    match mode with
    | .encrypted key =>
      match EncryptedBlob.codec.decodeAll payload with
      | some blob => decrypt A key blob
      | none => .error "stored payload is neither encrypted nor Shelly plaintext"
    | .plaintext (some key) =>
      match EncryptedBlob.codec.decodeAll payload with
      | some blob => decrypt A key blob
      | none => .error "decode legacy encrypted payload"
    | .plaintext none =>
      .error "stored payload is not plaintext and no legacy keychain key is available"

/-- A database written in the first mode may be read in the second. -/
def PersistenceMode.ReadIn : PersistenceMode → PersistenceMode → Prop
  | .encrypted key, .encrypted key' => key' = key
  | .encrypted key, .plaintext legacyKey => legacyKey = some key
  | .plaintext _, _ => True

/-- An encrypted payload that starts like one in plaintext. -/
def Imitates (mode : PersistenceMode) (nonce : Nonce) : Prop :=
  ∃ key, mode = .encrypted key ∧ plaintextPrefix <+: nonce.toList

theorem encodePayload_encrypted {key : Key} (h : encodePayload A (.encrypted key) nonce plaintext =
    .ok payload) : ∃ ciphertext, A.encrypt key nonce plaintext = some ciphertext ∧
      EncryptedBlob.codec.encode ⟨nonce, ciphertext⟩ = some payload := by
  unfold encodePayload encrypt at h
  cases hcipher : A.encrypt key nonce plaintext with
  | none => simp [hcipher] at h
  | some ciphertext =>
    refine ⟨ciphertext, rfl, ?_⟩
    cases hencode : EncryptedBlob.codec.encode ⟨nonce, ciphertext⟩ with
    | none => simp [hcipher, hencode] at h
    | some encoded =>
      simp only [hcipher, hencode, Except.ok.injEq] at h
      rw [h]

theorem encodePayload_plaintext {legacyKey : Option Key}
    (h : encodePayload A (.plaintext legacyKey) nonce plaintext = .ok payload) :
    ∃ encoded, PlaintextBlob.codec.encode ⟨plaintext⟩ = some encoded ∧
      payload = plaintextPrefix ++ encoded := by
  unfold encodePayload at h
  cases hencode : PlaintextBlob.codec.encode ⟨plaintext⟩ with
  | none => simp [hencode] at h
  | some encoded =>
    simp only [hencode, Except.ok.injEq] at h
    exact ⟨encoded, rfl, h.symm⟩

theorem decodePlaintextPayload_prefix {encoded : List UInt8}
    (h : PlaintextBlob.codec.encode ⟨plaintext⟩ = some encoded) :
    decodePlaintextPayload (plaintextPrefix ++ encoded) = .ok (some plaintext) := by
  have hprefix : plaintextPrefix.isPrefixOf (plaintextPrefix ++ encoded) = true :=
    List.isPrefixOf_iff_prefix.mpr (List.prefix_append _ _)
  rw [decodePlaintextPayload, if_pos hprefix, List.drop_left, Codec.decodeAll_encode h]

/-- An encrypted payload is the nonce, eight bytes of length and the ciphertext. -/
theorem encode_encryptedBlob {ciphertext : List UInt8}
    (h : EncryptedBlob.codec.encode ⟨nonce, ciphertext⟩ = some payload) :
    ∃ count : List UInt8, count.length = 8 ∧ payload = nonce.toList ++ (count ++ ciphertext) := by
  change ((Codec.raw 24).pair bytesCodec).encode (nonce, ciphertext) = some payload at h
  obtain ⟨first, second, hfirst, hsecond, rfl⟩ := Codec.exists_of_encode_pair h
  obtain ⟨count, hcount, rfl⟩ := Codec.exists_of_encode_bytes hsecond
  obtain rfl := Option.some.inj hfirst
  obtain ⟨-, hcount⟩ := Option.ite_none_right_eq_some.mp hcount
  obtain rfl := Option.some.inj hcount
  exact ⟨_, length_leBytes 8 _, rfl⟩

theorem prefix_encryptedBlob {ciphertext : List UInt8}
    (h : EncryptedBlob.codec.encode ⟨nonce, ciphertext⟩ = some payload) :
    plaintextPrefix <+: payload ↔ plaintextPrefix <+: nonce.toList := by
  obtain ⟨count, -, rfl⟩ := encode_encryptedBlob h
  refine ⟨fun hprefix => ?_, fun hprefix => hprefix.trans (List.prefix_append _ _)⟩
  exact List.prefix_of_prefix_length_le hprefix (List.prefix_append _ _) (by simp [plaintextPrefix])

/-- Eight bytes of a plaintext payload are its length. -/
theorem length_of_decodeAll {blob : PlaintextBlob} {encoded : List UInt8}
    (h : PlaintextBlob.codec.decodeAll encoded = some blob) :
    encoded.length = 8 + blob.plaintext.length := by
  unfold Codec.decodeAll at h
  split at h
  · next blob' hdecode =>
    obtain rfl := Option.some.inj h
    obtain ⟨⟨bytes, rest⟩, hbytes, heq⟩ := Option.bind_eq_some_iff.mp hdecode
    obtain ⟨rfl, rfl⟩ := Prod.mk.inj (Option.some.inj heq)
    obtain ⟨⟨n, input⟩, hcount, htimes⟩ := Option.bind_eq_some_iff.mp hbytes
    rw [length_of_readLe hcount, Codec.length_of_times_byte htimes]
    rfl
  · cases h

theorem decodePlaintextPayload_of_not_prefix (h : ¬ plaintextPrefix <+: payload) :
    decodePlaintextPayload payload = .ok none :=
  if_neg fun hprefix => h (List.isPrefixOf_iff_prefix.mp hprefix)

/-- Read as one in plaintext, an encrypted payload gives too long a text, if any. -/
theorem decodePlaintextPayload_imitation (hA : A.Lawful) {key : Key} {ciphertext : List UInt8}
    (hcipher : A.encrypt key nonce plaintext = some ciphertext)
    (h : EncryptedBlob.codec.encode ⟨nonce, ciphertext⟩ = some payload) :
    decodePlaintextPayload payload ≠ .ok (some plaintext) := by
  obtain ⟨count, hcount, rfl⟩ := encode_encryptedBlob h
  have hlength := hA.length_encrypt hcipher
  unfold decodePlaintextPayload
  split
  · split
    · next blob hdecode =>
      intro heq
      obtain rfl := Option.some.inj (Except.ok.inj heq)
      have htotal := length_of_decodeAll hdecode
      simp only [List.length_drop, List.length_append, Vector.length_toList, hcount, hlength,
        plaintextPrefix, List.length_cons, List.length_nil] at htotal
      omega
    · exact nofun
  · exact nofun

theorem decodePayload_of_not_imitates (hA : A.Lawful) {written read : PersistenceMode}
    (hmodes : written.ReadIn read) (hencode : encodePayload A written nonce plaintext = .ok payload)
    (h : ¬ Imitates written nonce) : decodePayload A read payload = .ok plaintext := by
  cases written with
  | plaintext legacyKey =>
    obtain ⟨encoded, hencoded, rfl⟩ := encodePayload_plaintext hencode
    simp only [decodePayload, decodePlaintextPayload_prefix hencoded]
  | encrypted key =>
    obtain ⟨ciphertext, hcipher, hblob⟩ := encodePayload_encrypted hencode
    have hprefix : ¬ plaintextPrefix <+: payload := fun hprefix =>
      h ⟨key, rfl, (prefix_encryptedBlob hblob).mp hprefix⟩
    have hplain := decodePlaintextPayload_of_not_prefix hprefix
    have hdecode := Codec.decodeAll_encode hblob
    cases read with
    | encrypted key' =>
      obtain rfl : key' = key := hmodes
      simp only [decodePayload, hplain, hdecode, decrypt, hA.decrypt_encrypt hcipher]
    | plaintext legacyKey =>
      obtain rfl : legacyKey = some key := hmodes
      simp only [decodePayload, hplain, hdecode, decrypt, hA.decrypt_encrypt hcipher]

/-- In a mode that may not read it, a payload is not read. -/
theorem decodePayload_error (hA : A.Authentic) {written read : PersistenceMode}
    (hmodes : ¬ written.ReadIn read)
    (hencode : encodePayload A written nonce plaintext = .ok payload)
    (h : ¬ Imitates written nonce) : ∃ e, decodePayload A read payload = .error e := by
  cases written with
  | plaintext legacyKey => exact absurd trivial hmodes
  | encrypted key =>
    obtain ⟨ciphertext, hcipher, hblob⟩ := encodePayload_encrypted hencode
    have hprefix : ¬ plaintextPrefix <+: payload := fun hprefix =>
      h ⟨key, rfl, (prefix_encryptedBlob hblob).mp hprefix⟩
    have hplain := decodePlaintextPayload_of_not_prefix hprefix
    have hdecode := Codec.decodeAll_encode hblob
    have hdecrypt : ∀ key', key' ≠ key → A.decrypt key' nonce ciphertext = none :=
      fun _ => hA hcipher
    match read with
    | .encrypted key' =>
      refine ⟨"decrypt stored session", ?_⟩
      simp only [decodePayload, hplain, hdecode, decrypt, hdecrypt key' hmodes]
    | .plaintext none =>
      refine ⟨"stored payload is not plaintext and no legacy keychain key is available", ?_⟩
      simp only [decodePayload, hplain]
    | .plaintext (some key') =>
      have hne : key' ≠ key := fun heq => hmodes (congrArg some heq)
      refine ⟨"decrypt stored session", ?_⟩
      simp only [decodePayload, hplain, hdecode, decrypt, hdecrypt key' hne]

/-- What was stored is read back in a mode that may read it, unless it was encrypted with a nonce
that starts with the marker of plaintext. -/
theorem decodePayload_encodePayload_iff (hA : A.Lawful) {written read : PersistenceMode}
    (hmodes : written.ReadIn read)
    (hencode : encodePayload A written nonce plaintext = .ok payload) :
    decodePayload A read payload = .ok plaintext ↔ ¬ Imitates written nonce := by
  refine ⟨?_, decodePayload_of_not_imitates hA hmodes hencode⟩
  rintro hdecode ⟨key, rfl, hprefix⟩
  obtain ⟨ciphertext, hcipher, hblob⟩ := encodePayload_encrypted hencode
  have hother := decodePlaintextPayload_imitation hA hcipher hblob
  have hmarked := List.isPrefixOf_iff_prefix.mpr ((prefix_encryptedBlob hblob).mpr hprefix)
  have hnone : decodePlaintextPayload payload ≠ .ok none := by
    rw [decodePlaintextPayload, if_pos hmarked]
    split <;> exact nofun
  unfold decodePayload at hdecode
  split at hdecode
  · cases hdecode
  · next text htext =>
    obtain rfl := Except.ok.inj hdecode
    exact hother htext
  · next htext => exact hnone htext

/-- A cipher that leaves the text as it is and adds an empty tag. -/
def tagOnly : Aead where
  encrypt _ _ plaintext := some (plaintext ++ List.replicate 16 0)
  decrypt _ _ ciphertext :=
    let plaintext := ciphertext.take (ciphertext.length - 16)
    if ciphertext = plaintext ++ List.replicate 16 0 then some plaintext else none

theorem tagOnly_lawful : tagOnly.Lawful where
  decrypt_encrypt {key nonce plaintext ciphertext} h := by
    obtain rfl := Option.some.inj h
    simp [tagOnly]
  length_encrypt {key nonce plaintext ciphertext} h := by
    obtain rfl := Option.some.inj h
    simp

def zeroKey : Key := Vector.replicate 32 0

theorem decodePayload_encodePayload_legacy :
    decodePayload tagOnly (.plaintext (some zeroKey))
      (List.replicate 24 0 ++ [18, 0, 0, 0, 0, 0, 0, 0] ++ [1, 2] ++ List.replicate 16 0) =
      .ok [1, 2] := by
  have hmodes : (PersistenceMode.encrypted zeroKey).ReadIn (.plaintext (some zeroKey)) := rfl
  have hencode : encodePayload tagOnly (.encrypted zeroKey) (Vector.replicate 24 0) [1, 2] =
      .ok (List.replicate 24 0 ++ [18, 0, 0, 0, 0, 0, 0, 0] ++ [1, 2] ++ List.replicate 16 0) := rfl
  apply (decodePayload_encodePayload_iff tagOnly_lawful hmodes hencode).mpr
  rintro ⟨_, _, hprefix⟩
  revert hprefix
  decide

/-- A nonce that starts with the marker. -/
def markedNonce : Nonce :=
  ⟨#[0x46, 0x57, 0x50, 0x31, 0, 0, 0, 0, 0, 0, 0, 0, 0, 0, 0, 0, 0, 0, 0, 0, 0, 0, 0, 0], rfl⟩

theorem markedNonce_lost :
    ¬ ∀ (A : Aead), A.Lawful → ∀ (written read : PersistenceMode) (nonce : Nonce)
      (plaintext payload : List UInt8), written.ReadIn read →
      encodePayload A written nonce plaintext = .ok payload →
      decodePayload A read payload = .ok plaintext := by
  intro h
  have hread := h tagOnly tagOnly_lawful (.encrypted zeroKey) (.encrypted zeroKey) markedNonce [1, 2]
    _ rfl rfl
  revert hread
  decide

end Shelly.Daemon
