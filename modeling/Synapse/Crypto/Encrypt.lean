import Synapse.Crypto.Handshake

/-!
# Encrypting to a peer (`encrypt.go`)

`EncryptMessage` draws a 256-bit AES key, encrypts it to the recipient's RSA key with OAEP,
seals the plaintext with AES-GCM under a fresh nonce, and returns the encrypted key, the
nonce and the sealed text, one after the other. `DecryptMessage` cuts the data at the size
of its own RSA modulus, then the rest at the GCM nonce size, and undoes the two layers.

RSA-OAEP and AES-GCM are taken as ideal (`Cipher`): decryption inverts encryption, an OAEP
ciphertext is exactly as long as the modulus, OAEP takes every message of at most
`k - 2·32 - 2` bytes for a `k`-byte modulus, and `Open` inverts `Seal`. `cipher.NewGCM`
never fails on an AES block, and `aes.NewCipher` takes keys of 16, 24 or 32 bytes. The
bytes `EncryptMessage` reads from `crypto/rand` are its argument (`Draws`).
-/

namespace Synapse.Crypto

open Synapse.Json

/-- RSA-OAEP with SHA-256 over key pairs, and AES-GCM, by the laws the code relies on. -/
structure Cipher where
  /-- `PublicKey.Size()`: the modulus of a key pair, in bytes. -/
  size : KeyId → Nat
  /-- `rsa.EncryptOAEP` to a public key, with the random bytes `seed`; `none` for a message
  too long for the key. -/
  encryptOAEP : KeyId → Bytes → Bytes → Option Bytes
  /-- `rsa.DecryptOAEP` with a private key. -/
  decryptOAEP : KeyId → Bytes → Option Bytes
  /-- `gcm.Seal(nil, nonce, plaintext, nil)` under an AES key. -/
  gcmSeal : Bytes → Bytes → Bytes → Bytes
  /-- `gcm.Open(nil, nonce, ciphertext, nil)` under an AES key. -/
  gcmOpen : Bytes → Bytes → Bytes → Option Bytes
  length_encryptOAEP : ∀ k seed m c, encryptOAEP k seed m = some c → c.length = size k
  decryptOAEP_encryptOAEP : ∀ k seed m c, encryptOAEP k seed m = some c → decryptOAEP k c = some m
  isSome_encryptOAEP : ∀ k seed m, m.length + 2 * 32 + 2 ≤ size k → (encryptOAEP k seed m).isSome
  gcmOpen_seal : ∀ key nonce p, gcmOpen key nonce (gcmSeal key nonce p) = some p

/-- `aes.NewCipher` takes a key of 16, 24 or 32 bytes. -/
def aesKeySizeOk (key : Bytes) : Bool := key.length == 16 || key.length == 24 || key.length == 32

/-- `gcm.NonceSize()` of `cipher.NewGCM`. -/
def gcmStandardNonceSize : Nat := 12

/-- `Encryptor`: a key pair of the 2048 bits `NewEncryptor` generates, by identity; its public
key is the same identity. -/
structure Encryptor (C : Cipher) where
  key : KeyId
  size_key : C.size key = 256

/-- What `EncryptMessage` reads from `crypto/rand`: the AES key, the bytes OAEP draws, and
the nonce, each as long as the code asks. -/
structure Draws where
  aesKey : Bytes
  seed : Bytes
  nonce : Bytes
  aesKey_length : aesKey.length = 32
  nonce_length : nonce.length = gcmStandardNonceSize

/-- The errors `EncryptMessage` can return here. -/
inductive EncryptError where
  /-- `failed to encrypt AES key: %w` -/
  | encryptAESKey
  /-- `failed to create AES cipher: %w` -/
  | createAESCipher
  deriving DecidableEq, Repr

/-- The errors of `DecryptMessage`. -/
inductive DecryptError where
  /-- `encrypted data too short` -/
  | dataTooShort
  /-- `failed to decrypt AES key: %w` -/
  | decryptAESKey
  /-- `failed to create AES cipher: %w` -/
  | createAESCipher
  /-- `ciphertext too short` -/
  | ciphertextTooShort
  /-- `failed to decrypt message: %w` -/
  | decryptMessage
  deriving DecidableEq, Repr

/-- The errors of `DecryptHandshakeMessage`. -/
inductive DecryptHandshakeError where
  /-- `failed to decrypt handshake message: %w` -/
  | decrypt (err : DecryptError)
  /-- `failed to unmarshal handshake message: %w` -/
  | unmarshal
  deriving DecidableEq, Repr

namespace Encryptor

variable {C : Cipher}

/-- `EncryptMessage(plaintext, recipientPubKey)`; the sender's own keys take no part. -/
def encryptMessage (_ : Encryptor C) (plaintext : Bytes) (recipientPubKey : KeyId) (r : Draws) :
    Except EncryptError Bytes :=
  match C.encryptOAEP recipientPubKey r.seed r.aesKey with
  | none => .error .encryptAESKey
  | some encryptedAESKey =>
    if !aesKeySizeOk r.aesKey then .error .createAESCipher
    else .ok (encryptedAESKey ++ (r.nonce ++ C.gcmSeal r.aesKey r.nonce plaintext))

/-- `DecryptMessage(encryptedData, senderPubKey)`; the sender's key takes no part. -/
def decryptMessage (e : Encryptor C) (encryptedData : Bytes) (_ : KeyId) :
    Except DecryptError Bytes :=
  let keySize := C.size e.key
  if encryptedData.length < keySize then .error .dataTooShort
  else
    let ciphertext := encryptedData.drop keySize
    match C.decryptOAEP e.key (encryptedData.take keySize) with
    | none => .error .decryptAESKey
    | some aesKey =>
      if !aesKeySizeOk aesKey then .error .createAESCipher
      else if ciphertext.length < gcmStandardNonceSize then .error .ciphertextTooShort
      else
        match C.gcmOpen aesKey (ciphertext.take gcmStandardNonceSize)
            (ciphertext.drop gcmStandardNonceSize) with
        | none => .error .decryptMessage
        | some plaintext => .ok plaintext

/-- `EncryptMessage` to a 2048-bit key succeeds, with the layout `DecryptMessage` cuts. -/
theorem encryptMessage_ok (s e : Encryptor C) (p : Bytes) (r : Draws) :
    ∃ encryptedAESKey, C.decryptOAEP e.key encryptedAESKey = some r.aesKey ∧
      encryptedAESKey.length = 256 ∧
      s.encryptMessage p e.key r = .ok (encryptedAESKey ++ (r.nonce ++ C.gcmSeal r.aesKey r.nonce p)) := by
  obtain ⟨c, hc⟩ := Option.isSome_iff_exists.mp
    (C.isSome_encryptOAEP e.key r.seed r.aesKey (by rw [r.aesKey_length, e.size_key]; decide))
  have hkey : aesKeySizeOk r.aesKey = true := by simp [aesKeySizeOk, r.aesKey_length]
  refine ⟨c, C.decryptOAEP_encryptOAEP _ _ _ _ hc, e.size_key ▸ C.length_encryptOAEP _ _ _ _ hc, ?_⟩
  simp [encryptMessage, hc, hkey]

/-- **What an encryptor encrypts to a peer's public key, the peer decrypts**: whoever sends
it, whatever the random bytes, and whichever sender key the peer names. -/
theorem decryptMessage_encryptMessage (e s : Encryptor C) (p : Bytes) (r : Draws) (k : KeyId) :
    ∃ encryptedData, s.encryptMessage p e.key r = .ok encryptedData ∧
      e.decryptMessage encryptedData k = .ok p := by
  obtain ⟨c, hdec, hlen, henc⟩ := encryptMessage_ok s e p r
  have hkey : aesKeySizeOk r.aesKey = true := by simp [aesKeySizeOk, r.aesKey_length]
  have hnonce := r.nonce_length
  refine ⟨_, henc, ?_⟩
  simp only [decryptMessage, List.length_append, e.size_key, ← hlen, List.take_left', hdec, hkey,
    Bool.not_true, Bool.false_eq_true, ↓reduceIte, List.drop_left', ← hnonce, C.gcmOpen_seal]
  rw [if_neg (Nat.not_lt.mpr (Nat.le_add_right _ _)), if_neg (Nat.not_lt.mpr (Nat.le_add_right _ _))]

/-- What `DecryptMessage` does with the layout `EncryptMessage` writes: it finds the AES key,
the nonce and the sealed text again, and opens it. -/
theorem decryptMessage_layout (e : Encryptor C) {c aesKey nonce : Bytes} (p : Bytes) (k : KeyId)
    (hdec : C.decryptOAEP e.key c = some aesKey) (hlen : c.length = 256)
    (hkey : aesKeySizeOk aesKey = true) (hnonce : nonce.length = gcmStandardNonceSize) :
    e.decryptMessage (c ++ (nonce ++ C.gcmSeal aesKey nonce p)) k = .ok p := by
  simp only [decryptMessage, List.length_append, e.size_key, ← hlen, List.take_left', hdec, hkey,
    Bool.not_true, Bool.false_eq_true, ↓reduceIte, List.drop_left', ← hnonce, C.gcmOpen_seal]
  rw [if_neg (Nat.not_lt.mpr (Nat.le_add_right _ _)), if_neg (Nat.not_lt.mpr (Nat.le_add_right _ _))]

/-! ## Handshake messages (`EncryptHandshakeMessage`, `DecryptHandshakeMessage`)

The handshake manager's two methods put a `HandshakeMessage` through its encryptor:
`json.Marshal` first, which never fails on this struct, and `json.Unmarshal` into a zero
message after decryption. -/

/-- `EncryptHandshakeMessage(msg, recipientPubKey)`, with the manager's encryptor. -/
def encryptHandshakeMessage (s : Encryptor C) (msg : HandshakeMessage) (recipientPubKey : KeyId)
    (r : Draws) : Except EncryptError Bytes :=
  s.encryptMessage msg.marshal recipientPubKey r

/-- `DecryptHandshakeMessage(encryptedData, senderPubKey)`, with the manager's encryptor. -/
def decryptHandshakeMessage (e : Encryptor C) (encryptedData : Bytes) (senderPubKey : KeyId) :
    Except DecryptHandshakeError HandshakeMessage :=
  match e.decryptMessage encryptedData senderPubKey with
  | .error err => .error (.decrypt err)
  | .ok decryptedBytes =>
    match unmarshal (decodeStruct handshakeField ⟨[], none, 0, none, none⟩) decryptedBytes with
    | none => .error .unmarshal
    | some msg => .ok msg

/-- **A handshake message one encryptor encrypts to a peer's key, the peer decrypts to what
`json.Unmarshal` reads of it** (`received`: its node id made valid UTF-8, an empty session key
`nil`), for a timestamp in `int64`'s range: whoever sends it, whatever the random bytes and
whichever sender key the peer names. -/
theorem decryptHandshakeMessage_encryptHandshakeMessage (e s : Encryptor C) (m : HandshakeMessage)
    (r : Draws) (k : KeyId) (h1 : -2 ^ 63 ≤ m.timestamp) (h2 : m.timestamp < 2 ^ 63) :
    ∃ encryptedData, s.encryptHandshakeMessage m e.key r = .ok encryptedData ∧
      e.decryptHandshakeMessage encryptedData k = .ok m.received := by
  obtain ⟨c, hdec, hlen, henc⟩ := encryptMessage_ok s e m.marshal r
  have hkey : aesKeySizeOk r.aesKey = true := by simp [aesKeySizeOk, r.aesKey_length]
  have hread : unmarshal (decodeStruct handshakeField ⟨[], none, 0, none, none⟩) m.marshal =
      some m.received := by
    simpa [receiveHandshakeMessage, sendHandshakeMessage] using
      receiveHandshakeMessage_sendHandshakeMessage m h1 h2
  refine ⟨_, henc, ?_⟩
  simp only [decryptHandshakeMessage, decryptMessage_layout e _ k hdec hlen hkey r.nonce_length, hread]

end Encryptor

/-- A cipher meeting the laws: a key is padded with zeros after a one, for a modulus of 256
bytes, and `Seal` hides nothing. -/
def Cipher.ideal : Cipher where
  size _ := 256
  encryptOAEP _ _ m := if m.length ≤ 190 then some (List.replicate (255 - m.length) 0 ++ 1 :: m) else none
  decryptOAEP _ c := some ((c.dropWhile (· == 0)).drop 1)
  gcmSeal _ _ p := p
  gcmOpen _ _ c := some c
  length_encryptOAEP k seed m c h := by
    dsimp only at h ⊢
    split_ifs at h with hm
    cases h
    simp; omega
  decryptOAEP_encryptOAEP k seed m c h := by
    dsimp only at h ⊢
    split_ifs at h
    cases h
    simp [List.dropWhile_append]
  isSome_encryptOAEP k seed m h := by
    dsimp only at h ⊢
    rw [if_pos (by omega)]
    rfl
  gcmOpen_seal _ _ _ := rfl

theorem decryptHandshakeMessage_encryptHandshakeMessage_ideal :
    -2 ^ 63 ≤ (⟨[0x41], none, 1704067200, none, some [0x01]⟩ : HandshakeMessage).timestamp ∧
      (⟨[0x41], none, 1704067200, none, some [0x01]⟩ : HandshakeMessage).timestamp < 2 ^ 63 ∧
      ∃ encryptedData,
        (⟨1, rfl⟩ : Encryptor Cipher.ideal).encryptHandshakeMessage
          ⟨[0x41], none, 1704067200, none, some [0x01]⟩ 0
          ⟨List.replicate 32 0, [], List.replicate 12 0, rfl, rfl⟩ = .ok encryptedData ∧
        (⟨0, rfl⟩ : Encryptor Cipher.ideal).decryptHandshakeMessage encryptedData 1 =
          .ok (⟨[0x41], none, 1704067200, none, some [0x01]⟩ : HandshakeMessage).received :=
  ⟨by decide, by decide, Encryptor.decryptHandshakeMessage_encryptHandshakeMessage ⟨0, rfl⟩ ⟨1, rfl⟩
    ⟨[0x41], none, 1704067200, none, some [0x01]⟩ ⟨List.replicate 32 0, [], List.replicate 12 0, rfl, rfl⟩ 1
    (by decide) (by decide)⟩

end Synapse.Crypto
