import StreamDigest.Aes.Cipher
import StreamDigest.Engine.Stream
import StreamDigest.Gcm.Counter
import StreamDigest.Ghash.Core

/-!
# Authenticated encryption

AES-256-GCM: the data is encrypted in counter mode, and a tag over associated
data and ciphertext is computed by GHASH, which runs on the streaming engine
like the other hashes. Decryption checks the tag before it touches the data.
`Gcm` is over any block cipher; `Gcm.ofKey` takes AES-256.
-/

namespace StreamDigest

/-- Authenticated encryption with a block cipher under a fixed key. -/
structure Gcm where
  cipher : Gcm.BlockCipher

namespace Gcm

def keyLen : Nat := 32

def tagLen : Nat := 16

/-- The longest message in bytes, `2 ^ 36 - 32`: all blocks that the counter has
for it. -/
def maxMessage : Nat := 0xf_ffff_ffe0

/-- The longest associated data in bytes, `2 ^ 61 - 1`: its length in bits has 64
bits. -/
def maxAad : Nat := 0x1fff_ffff_ffff_ffff

abbrev Key := FixedBytes keyLen

abbrev Tag := FixedBytes tagLen

def ofKey (key : Key) : Gcm := ⟨Aes.encrypt (Aes.expand key)⟩

/-- The key of the tag's hash, the encryption of the zero block. -/
def hashKey (g : Gcm) : Ghash.Key := g.cipher (FixedBytes.zero blockLen)

/-- Fails if the message or else the associated data is too long. -/
def checkLengths (message aad : Nat) : Except Error Unit :=
  if maxMessage < message then .error (.lengthOverflow 0 message maxMessage)
  else if maxAad < aad then .error (.lengthOverflow 0 aad maxAad)
  else .ok ()

/-- The zeros that fill `len` bytes up to whole blocks. -/
def padding (len : Nat) : Bytes := Bytes.zeros ((blockLen - len % blockLen) % blockLen)

/-- The lengths of associated data and ciphertext in bits, as a block. -/
def lengthBlock (aad ciphertext : Nat) : Bytes :=
  Bytes.toBE 8 (aad * 8) ++ Bytes.toBE 8 (ciphertext * 8)

/-- What the tag's hash takes in, chunk by chunk. -/
def authenticated (aad ciphertext : Bytes) : List Bytes :=
  [aad, padding aad.length, ciphertext, padding ciphertext.length,
    lengthBlock aad.length ciphertext.length]

/-- The hash of associated data and ciphertext, before the mask. -/
def tagHash (key : Ghash.Key) (aad ciphertext : Bytes) : Except Error Bytes := do
  let s ← Stream.create Ghash.backend key
  let s ← s.updateAll (authenticated aad ciphertext)
  s.finish.onZeros tagLen

/-- The tag of associated data and ciphertext, masked with the encryption of
the block `j`. -/
def tag (g : Gcm) (j : Block) (aad ciphertext : Bytes) : Except Error Bytes := do
  let hash ← tagHash g.hashKey aad ciphertext
  return Bytes.xor hash (g.cipher j).toBytes

/-- Encrypt the data where it stands and return its tag. -/
def encryptInPlace (g : Gcm) (nonce : Nonce) (aad : Bytes) : InPlace Bytes := fun data =>
  match checkLengths data.length aad.length with
  | .error e => .error e data
  | .ok () =>
    match applyKeystream g.cipher (preCounter nonce) data with
    | .error e => .error e data
    | .ok ciphertext =>
      match g.tag (preCounter nonce) aad ciphertext with
      | .error e => .error e ciphertext
      | .ok tag => .ok tag ciphertext

/-- Verify the tag of the data and decrypt it where it stands. -/
def decryptInPlace (g : Gcm) (nonce : Nonce) (aad : Bytes) (tag : Tag) : InPlace Unit := fun data =>
  match checkLengths data.length aad.length with
  | .error e => .error e data
  | .ok () =>
    match g.tag (preCounter nonce) aad data with
    | .error e => .error e data
    | .ok computed =>
      if computed = tag.toBytes then
        match applyKeystream g.cipher (preCounter nonce) data with
        | .error e => .error e data
        | .ok plaintext => .ok () plaintext
      else .error .authentication data

/-- The ciphertext with its tag behind it. -/
def encrypt (g : Gcm) (nonce : Nonce) (plaintext aad : Bytes) : Except Error Bytes :=
  match (g.encryptInPlace nonce aad).run plaintext with
  | .ok tag ciphertext => .ok (ciphertext ++ tag)
  | .error e _ => .error e

/-- The plaintext of a ciphertext with its tag behind it. -/
def decrypt (g : Gcm) (nonce : Nonce) (ciphertext aad : Bytes) : Except Error Bytes := do
  if ciphertext.length < tagLen then
    throw (.ciphertextLength ciphertext.length tagLen)
  let (body, tag) ← Bytes.cut (ciphertext.length - tagLen) ciphertext
  let tag ← FixedBytes.ofBytes tagLen tag
  match (g.decryptInPlace nonce aad tag).run body with
  | .ok () plaintext => .ok plaintext
  | .error e _ => .error e

/-- Encrypt under a key used once. -/
def encryptWith (key : Key) (nonce : Nonce) (plaintext aad : Bytes) : Except Error Bytes :=
  (ofKey key).encrypt nonce plaintext aad

def decryptWith (key : Key) (nonce : Nonce) (ciphertext aad : Bytes) : Except Error Bytes :=
  (ofKey key).decrypt nonce ciphertext aad

def inspect (_g : Gcm) : Inspect := .sealed "Aes256Gcm"

end Gcm

end StreamDigest
