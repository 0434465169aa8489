import StreamDigest.Aes.Field
import StreamDigest.Bytes.Fixed

/-!
# The AES-256 block cipher

A block is four columns of four bytes. The key schedule is a list of fifteen
round keys of the same shape, each computed from the two before it. Only
encryption is here: counter mode uses no other direction.
-/

namespace StreamDigest.Aes

abbrev Block := FixedBytes 16

abbrev Key := FixedBytes 32

abbrev Column := Vector UInt8 4

/-- The state of the cipher, and a round key: four columns. -/
abbrev State := Vector Column 4

def Column.xor (a b : Column) : Column := a.zipWith (· ^^^ ·) b

def State.addKey (s k : State) : State := s.zipWith Column.xor k

/-- The sixteen bytes of `bs` from byte `start` on, column by column. -/
def stateAt {n : Nat} (bs : FixedBytes n) (start : Nat) (h : start + 16 ≤ n) : State :=
  Vector.ofFn fun c => Vector.ofFn fun r => bs[start + 4 * c.val + r.val]

/-- The bytes of a state, column by column. -/
def State.toBlock (s : State) : Block :=
  Vector.ofFn fun i => s[i.val / 4][i.val % 4]

def subBytes (s : State) : State := s.map (·.map sub)

/-- Turn row `r` by `r` columns. -/
def shiftRows (s : State) : State :=
  Vector.ofFn fun c : Fin 4 => Vector.ofFn fun r : Fin 4 => s[c + r][r]

/-- Multiply a column by the polynomial `3 t ^ 3 + t ^ 2 + t + 2`. -/
def mixColumn (a : Column) : Column :=
  Vector.ofFn fun r : Fin 4 => mul a[r] 2 ^^^ mul a[r + 1] 3 ^^^ a[r + 2] ^^^ a[r + 3]

def mixColumns (s : State) : State := s.map mixColumn

/-! ## Key schedule -/

/-- The round key four columns on: the first column takes in `first`, each
further one the column before it. -/
def chain (k : State) (first : Column) : State :=
  let c₀ := k[0].xor first
  let c₁ := k[1].xor c₀
  let c₂ := k[2].xor c₁
  #v[c₀, c₁, c₂, k[3].xor c₂]

/-- The next two round keys after `k₀` and `k₁`, with round constant `rcon`. -/
def nextKeys (k₀ k₁ : State) (rcon : UInt8) : State × State :=
  let turned : Column := #v[sub k₁[3][1] ^^^ rcon, sub k₁[3][2], sub k₁[3][3], sub k₁[3][0]]
  let k₂ := chain k₀ turned
  (k₂, chain k₁ (k₂[3].map sub))

/-- The round keys from `k₀` and `k₁` on, two for each of `n` steps. -/
def keysFrom (k₀ k₁ : State) (rcon : UInt8) : Nat → List State
  | 0 => []
  | n + 1 =>
    let (k₂, k₃) := nextKeys k₀ k₁ rcon
    k₀ :: k₁ :: keysFrom k₂ k₃ (timesT rcon) n

/-- The round keys: one before the rounds, one for each inner round and one
for the last. -/
structure Schedule where
  whitening : State
  inner : List State
  last : State

def expand (key : Key) : Schedule :=
  let k₀ := stateAt key 0 (by decide)
  let k₁ := stateAt key 16 (by decide)
  let keys := keysFrom k₀ k₁ 1 8
  ⟨k₀, (keys.drop 1).take 13, keys.getD 14 k₀⟩

/-! ## Encryption -/

def round (s k : State) : State := (mixColumns (shiftRows (subBytes s))).addKey k

def encrypt (keys : Schedule) (block : Block) : Block :=
  let s := keys.inner.foldl round ((stateAt block 0 (by decide)).addKey keys.whitening)
  ((shiftRows (subBytes s)).addKey keys.last).toBlock

end StreamDigest.Aes
