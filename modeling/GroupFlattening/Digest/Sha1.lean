/-!
# The SHA-1 Digest

A digest of 160 bits over a list of bytes: the message is padded to blocks of sixty-four bytes, each
block is expanded to eighty words and mixed into a state of five words.
-/

namespace GroupFlattening.Digest

/-- The five words that a block is mixed into. -/
structure State where
  a : UInt32
  b : UInt32
  c : UInt32
  d : UInt32
  e : UInt32
  deriving DecidableEq, Repr

/-- The state before the first block. -/
def State.initial : State :=
  ⟨0x67452301, 0xEFCDAB89, 0x98BADCFE, 0x10325476, 0xC3D2E1F0⟩

/-- The bits of `word` moved `n` places up, those that fall out coming back at the bottom. -/
def rotate (n : UInt32) (word : UInt32) : UInt32 := (word <<< n) ||| (word >>> (32 - n))

/-- The last `count` base-256 digits of `n`, most significant first. -/
def bytesOfNat (n : Nat) : Nat → List UInt8
  | 0 => []
  | count + 1 => bytesOfNat (n / 256) count ++ [UInt8.ofNat (n % 256)]

/-- The message with a one bit, zeros up to eight bytes short of a full block, and its length. -/
def padded (message : List UInt8) : List UInt8 :=
  -- one byte for the bit that ends the message, eight for its length
  let zeros := (119 - message.length % 64) % 64
  message ++ [0x80] ++ List.replicate zeros 0 ++ bytesOfNat (8 * message.length) 8

/-- The first `count` blocks of `size` bytes. -/
def blocks (size : Nat) : Nat → List UInt8 → List (List UInt8)
  | 0, _ => []
  | count + 1, bytes => bytes.take size :: blocks size count (bytes.drop size)

/-- Four bytes as one word, most significant first. -/
def wordOfBytes (bytes : List UInt8) : UInt32 :=
  bytes.foldl (fun word byte => word <<< 8 ||| byte.toUInt32) 0

/-- The eighty words of a block: its own sixteen, then each from four earlier ones. -/
def schedule (block : List UInt8) : Array UInt32 :=
  (List.range 64).foldl
    (fun words k =>
      let word i := words.getD i 0
      words.push (rotate 1 (word (k + 13) ^^^ word (k + 8) ^^^ word (k + 2) ^^^ word k)))
    ((blocks 4 16 block).map wordOfBytes).toArray

/-- The mixing function and the constant of round `t`. -/
def roundMix (t : Nat) (b c d : UInt32) : UInt32 × UInt32 :=
  if t < 20 then ((b &&& c) ||| (~~~b &&& d), 0x5A827999)
  else if t < 40 then (b ^^^ c ^^^ d, 0x6ED9EBA1)
  else if t < 60 then ((b &&& c) ||| (b &&& d) ||| (c &&& d), 0x8F1BBCDC)
  else (b ^^^ c ^^^ d, 0xCA62C1D6)

/-- One of the eighty rounds. -/
def State.round (s : State) (t : Nat) (word : UInt32) : State :=
  let mix := roundMix t s.b s.c s.d
  ⟨rotate 5 s.a + mix.1 + s.e + mix.2 + word, s.a, rotate 30 s.b, s.c, s.d⟩

/-- A block mixed into the state. -/
def State.absorb (s : State) (block : List UInt8) : State :=
  let words := schedule block
  let r := (List.range 80).foldl (fun s t => s.round t (words.getD t 0)) s
  ⟨s.a + r.a, s.b + r.b, s.c + r.c, s.d + r.d, s.e + r.e⟩

/-- The twenty bytes of the digest. -/
def sha1 (message : List UInt8) : List UInt8 :=
  let bytes := padded message
  let s := (blocks 64 (bytes.length / 64) bytes).foldl State.absorb State.initial
  [s.a, s.b, s.c, s.d, s.e].flatMap fun word => bytesOfNat word.toNat 4

/-- The hexadecimal digit of `n`, in lower case. -/
def hexDigit (n : Nat) : Char :=
  if n < 10 then Char.ofNat (48 + n) else Char.ofNat (87 + n)

/-- Two hexadecimal digits for each byte. -/
def hex (bytes : List UInt8) : List Char :=
  bytes.flatMap fun byte => [hexDigit (byte.toNat / 16), hexDigit (byte.toNat % 16)]

theorem length_bytesOfNat (n count : Nat) : (bytesOfNat n count).length = count := by
  induction count generalizing n with
  | zero => rfl
  | succ count ih => simp [bytesOfNat, ih]

/-- A digest has twenty bytes. -/
theorem length_sha1 (message : List UInt8) : (sha1 message).length = 20 := by
  simp [sha1, length_bytesOfNat]

/-- A byte takes two digits. -/
theorem length_hex (bytes : List UInt8) : (hex bytes).length = 2 * bytes.length := by
  induction bytes with
  | nil => rfl
  | cons byte rest ih => simp only [hex, List.flatMap_cons] at ih ⊢; simp [ih]; omega

end GroupFlattening.Digest
