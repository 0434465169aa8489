import StreamDigest.Blake2.Variant
import StreamDigest.Gcm.Aead
import StreamDigest.Poly1305.Core

/-!
# Lengths and limits by name

The block, key and digest lengths of the algorithms and the limits of
authenticated encryption, under the names that applications use for them.
-/

namespace StreamDigest.Limits

def blake2 (name : String) (v : Blake2.Variant) : List (String × Nat) :=
  [(name ++ "_BLOCKBYTES", v.blockLen),
   (name ++ "_OUTBYTES", v.maxLen),
   (name ++ "_KEYBYTES", v.maxLen),
   (name ++ "_SALTBYTES", v.fieldLen),
   (name ++ "_PERSONALBYTES", v.fieldLen)]

def onetimeAuth (name : String) : List (String × Nat) :=
  [(name ++ "_BYTES", Poly1305.tagLen), (name ++ "_KEYBYTES", Poly1305.keyLen)]

def gcm (name : String) : List (String × Nat) :=
  [(name ++ "_KEYBYTES", Gcm.keyLen),
   (name ++ "_NPUBBYTES", Gcm.nonceLen),
   (name ++ "_ABYTES", Gcm.tagLen),
   (name ++ "_MESSAGEBYTES_MAX", Gcm.maxMessage),
   (name ++ "_ADBYTES_MAX", Gcm.maxAad)]

def table : List (String × Nat) :=
  blake2 "BLAKE2S" .s ++ blake2 "BLAKE2B" .b ++
    onetimeAuth "CRYPTO_ONETIMEAUTH_POLY1305" ++ onetimeAuth "CRYPTO_ONETIMEAUTH" ++
    [("GHASH_BLOCKBYTES", Ghash.blockLen)] ++ gcm "CRYPTO_AEAD_AES256GCM"

end StreamDigest.Limits
