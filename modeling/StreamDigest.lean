import StreamDigest.Engine.Probe
import StreamDigest.Blake2.Hash
import StreamDigest.OnetimeAuth
import StreamDigest.Limits
import StreamDigest.Random
import StreamDigest.Serial.Array
import StreamDigest.Proofs.Engine.Contract
import StreamDigest.Proofs.Engine.Chunking
import StreamDigest.Proofs.Blake2.Hash
import StreamDigest.Proofs.Poly1305.Tag
import StreamDigest.Proofs.Ghash.Field
import StreamDigest.Proofs.Ghash.Irreducible
import StreamDigest.Proofs.Bytes.Bits
import StreamDigest.Proofs.Ghash.Digest
import StreamDigest.Proofs.Gcm.Standard
import StreamDigest.Proofs.Gcm.Encryption
import StreamDigest.Proofs.Gcm.Opening
import StreamDigest.Proofs.Bytes.Changes
import StreamDigest.Proofs.Ghash.Distinct
import StreamDigest.Proofs.Gcm.Tampering
import StreamDigest.Proofs.Engine.InPlace
import StreamDigest.Proofs.Engine.Session
import StreamDigest.Proofs.Engine.Bounds
import StreamDigest.Proofs.Gcm.Failures
import StreamDigest.Proofs.Gcm.Uses
import StreamDigest.Proofs.Blake2.Encoding
import StreamDigest.Proofs.Algebra.Evaluation
import StreamDigest.Proofs.Ghash.Multiplication
import StreamDigest.Proofs.Ghash.Evaluation
import StreamDigest.Proofs.Gcm.Universal
import StreamDigest.Proofs.Poly1305.Prime
import StreamDigest.Proofs.Poly1305.Universal
import StreamDigest.Proofs.Poly1305.Authentication
import StreamDigest.Proofs.Poly1305.Overflow
import StreamDigest.Proofs.Blake2.Counter
import StreamDigest.Proofs.Engine.Splitting
import StreamDigest.Proofs.Blake2.Hasher
import StreamDigest.Proofs.Poly1305.Reduction
import StreamDigest.Proofs.Blake2.Params
import StreamDigest.Proofs.Blake2.Visible
import StreamDigest.Proofs.Serial.Array
