import Mathlib.Algebra.Ring.Nat
import Mathlib.Data.List.Defs
import Mathlib.Logic.Function.Iterate

/-!
SHA-256, CRC-32 and BLAKE2b (without a key) of a list of bytes, and their hexadecimal texts. CRC-32
goes one bit at a time.
-/

namespace Sha256

abbrev Word := BitVec 32

/-- The chaining state: the eight words `a` to `h`. -/
structure State where
  a : Word
  b : Word
  c : Word
  d : Word
  e : Word
  f : Word
  g : Word
  h : Word

def initial : State :=
  ⟨0x6a09e667, 0xbb67ae85, 0x3c6ef372, 0xa54ff53a, 0x510e527f, 0x9b05688c, 0x1f83d9ab, 0x5be0cd19⟩

def roundConstants : List Word :=
  [0x428a2f98, 0x71374491, 0xb5c0fbcf, 0xe9b5dba5, 0x3956c25b, 0x59f111f1, 0x923f82a4, 0xab1c5ed5,
    0xd807aa98, 0x12835b01, 0x243185be, 0x550c7dc3, 0x72be5d74, 0x80deb1fe, 0x9bdc06a7, 0xc19bf174,
    0xe49b69c1, 0xefbe4786, 0x0fc19dc6, 0x240ca1cc, 0x2de92c6f, 0x4a7484aa, 0x5cb0a9dc, 0x76f988da,
    0x983e5152, 0xa831c66d, 0xb00327c8, 0xbf597fc7, 0xc6e00bf3, 0xd5a79147, 0x06ca6351, 0x14292967,
    0x27b70a85, 0x2e1b2138, 0x4d2c6dfc, 0x53380d13, 0x650a7354, 0x766a0abb, 0x81c2c92e, 0x92722c85,
    0xa2bfe8a1, 0xa81a664b, 0xc24b8b70, 0xc76c51a3, 0xd192e819, 0xd6990624, 0xf40e3585, 0x106aa070,
    0x19a4c116, 0x1e376c08, 0x2748774c, 0x34b0bcb5, 0x391c0cb3, 0x4ed8aa4a, 0x5b9cca4f, 0x682e6ff3,
    0x748f82ee, 0x78a5636f, 0x84c87814, 0x8cc70208, 0x90befffa, 0xa4506ceb, 0xbef9a3f7, 0xc67178f2]

def bigSigma0 (x : Word) : Word := x.rotateRight 2 ^^^ x.rotateRight 13 ^^^ x.rotateRight 22

def bigSigma1 (x : Word) : Word := x.rotateRight 6 ^^^ x.rotateRight 11 ^^^ x.rotateRight 25

def sigma0 (x : Word) : Word := x.rotateRight 7 ^^^ x.rotateRight 18 ^^^ (x >>> 3)

def sigma1 (x : Word) : Word := x.rotateRight 17 ^^^ x.rotateRight 19 ^^^ (x >>> 10)

def choose (x y z : Word) : Word := (x &&& y) ^^^ (~~~x &&& z)

def majority (x y z : Word) : Word := (x &&& y) ^^^ (x &&& z) ^^^ (y &&& z)

def words : List UInt8 → List Word
  | p :: q :: r :: s :: rest =>
    BitVec.ofNat 32 (((p.toNat * 256 + q.toNat) * 256 + r.toNat) * 256 + s.toNat) :: words rest
  | _ => []

/-- `n` further words of a message schedule, which is held latest word first. -/
def extend : ℕ → List Word → List Word
  | 0, ws => ws
  | n + 1, ws =>
    extend n ((sigma1 (ws.getD 1 0) + ws.getD 6 0 + sigma0 (ws.getD 14 0) + ws.getD 15 0) :: ws)

def schedule (block : List UInt8) : List Word := (extend 48 (words block).reverse).reverse

def round (s : State) (kw : Word × Word) : State :=
  let t1 := s.h + bigSigma1 s.e + choose s.e s.f s.g + kw.1 + kw.2
  let t2 := bigSigma0 s.a + majority s.a s.b s.c
  ⟨t1 + t2, s.a, s.b, s.c, s.d + t1, s.e, s.f, s.g⟩

def compress (s : State) (block : List UInt8) : State :=
  let t := (roundConstants.zip (schedule block)).foldl round s
  ⟨s.a + t.a, s.b + t.b, s.c + t.c, s.d + t.d, s.e + t.e, s.f + t.f, s.g + t.g, s.h + t.h⟩

/-- The `n` low bytes of a number, most significant first. -/
def bigEndian (n value : ℕ) : List UInt8 :=
  ((List.range n).map fun i => UInt8.ofNat (value / 256 ^ i)).reverse

def pad (message : List UInt8) : List UInt8 :=
  message ++ 0x80 :: List.replicate ((119 - message.length % 64) % 64) 0 ++
    bigEndian 8 (8 * message.length)

def blocks : ℕ → List UInt8 → List (List UInt8)
  | 0, _ => []
  | n + 1, bytes => bytes.take 64 :: blocks n (bytes.drop 64)

def digest (message : List UInt8) : State :=
  let padded := pad message
  (blocks (padded.length / 64) padded).foldl compress initial

def hexWord (w : Word) : List Char :=
  ((List.range 8).map fun i => Nat.digitChar (w.toNat / 16 ^ i % 16)).reverse

def hexdigest (message : List UInt8) : String :=
  let s := digest message
  String.ofList ([s.a, s.b, s.c, s.d, s.e, s.f, s.g, s.h].flatMap hexWord)

theorem ascii_hexdigest {message : List UInt8} {c : Char} (h : c ∈ (hexdigest message).toList) :
    c.toNat < 128 := by
  have hdigit : ∀ n < 16, (Nat.digitChar n).toNat < 128 := by decide
  unfold hexdigest at h
  rw [String.toList_ofList] at h
  obtain ⟨w, -, hw⟩ := List.mem_flatMap.1 h
  unfold hexWord at hw
  obtain ⟨i, -, rfl⟩ := List.mem_map.1 (List.mem_reverse.1 hw)
  exact hdigit _ (Nat.mod_lt _ (by omega))

example : hexdigest [97, 98, 99] =
    "ba7816bf8f01cfea414140de5dae2223b00361a396177a9cb410ff61f20015ad" := by
  decide +kernel

end Sha256

namespace Crc32

open Sha256

def crcBit (w : Word) : Word :=
  if w.getLsbD 0 then (w >>> 1) ^^^ 0xEDB88320 else w >>> 1

def crcByte (w : Word) (b : UInt8) : Word := Nat.iterate crcBit 8 (w ^^^ BitVec.ofNat 32 b.toNat)

def crc32 (message : List UInt8) : Word := ~~~ message.foldl crcByte 0xFFFFFFFF

/-- `f"{crc:08x}"`. -/
def crcText (message : List UInt8) : List Char := hexWord (crc32 message)

variable (message : List UInt8)

theorem length_crcText : (crcText message).length = 8 := by
  simp [crcText, hexWord]

theorem lower_crcText : (crcText message).map Char.toLower = crcText message := by
  have hdigit : ∀ n < 16, (Nat.digitChar n).toLower = Nat.digitChar n := by decide
  unfold crcText hexWord
  rw [List.map_reverse, List.map_map]
  congr 1
  apply List.map_congr_left
  intro i _
  exact hdigit _ (Nat.mod_lt _ (by omega))

example : crcText [49, 50, 51, 52, 53, 54, 55, 56, 57] =
    ['c', 'b', 'f', '4', '3', '9', '2', '6'] := by
  decide +kernel

end Crc32

namespace Blake2b

abbrev Word := BitVec 64

def initial : List Word :=
  [0x6a09e667f3bcc908, 0xbb67ae8584caa73b, 0x3c6ef372fe94f82b, 0xa54ff53a5f1d36f1,
    0x510e527fade682d1, 0x9b05688c2b3e6c1f, 0x1f83d9abfb41bd6b, 0x5be0cd19137e2179]

def schedules : List (List ℕ) :=
  [[0, 1, 2, 3, 4, 5, 6, 7, 8, 9, 10, 11, 12, 13, 14, 15],
    [14, 10, 4, 8, 9, 15, 13, 6, 1, 12, 0, 2, 11, 7, 5, 3],
    [11, 8, 12, 0, 5, 2, 15, 13, 10, 14, 3, 6, 7, 1, 9, 4],
    [7, 9, 3, 1, 13, 12, 11, 14, 2, 6, 5, 10, 4, 0, 15, 8],
    [9, 0, 5, 7, 2, 4, 10, 15, 14, 1, 11, 12, 6, 8, 3, 13],
    [2, 12, 6, 10, 0, 11, 8, 3, 4, 13, 7, 5, 15, 14, 1, 9],
    [12, 5, 1, 15, 14, 13, 4, 10, 0, 7, 6, 3, 9, 2, 8, 11],
    [13, 11, 7, 14, 12, 1, 3, 9, 5, 0, 15, 4, 8, 6, 2, 10],
    [6, 15, 14, 9, 11, 3, 0, 8, 12, 2, 13, 7, 1, 4, 10, 5],
    [10, 2, 8, 4, 7, 6, 1, 5, 15, 11, 9, 14, 3, 12, 13, 0],
    [0, 1, 2, 3, 4, 5, 6, 7, 8, 9, 10, 11, 12, 13, 14, 15],
    [14, 10, 4, 8, 9, 15, 13, 6, 1, 12, 0, 2, 11, 7, 5, 3]]

def mix (v : List Word) (a b c d : ℕ) (x y : Word) : List Word :=
  let va := v.getD a 0 + v.getD b 0 + x
  let vd := (v.getD d 0 ^^^ va).rotateRight 32
  let vc := v.getD c 0 + vd
  let vb := (v.getD b 0 ^^^ vc).rotateRight 24
  let va := va + vb + y
  let vd := (vd ^^^ va).rotateRight 16
  let vc := vc + vd
  let vb := (vb ^^^ vc).rotateRight 63
  (((v.set a va).set b vb).set c vc).set d vd

def mixings : List (ℕ × ℕ × ℕ × ℕ) :=
  [(0, 4, 8, 12), (1, 5, 9, 13), (2, 6, 10, 14), (3, 7, 11, 15),
    (0, 5, 10, 15), (1, 6, 11, 12), (2, 7, 8, 13), (3, 4, 9, 14)]

def round (block : List Word) (v : List Word) (schedule : List ℕ) : List Word :=
  (mixings.zipIdx).foldl (fun v p =>
    mix v p.1.1 p.1.2.1 p.1.2.2.1 p.1.2.2.2 (block.getD (schedule.getD (2 * p.2) 0) 0)
      (block.getD (schedule.getD (2 * p.2 + 1) 0) 0)) v

/-- One block into the chaining state, `count` bytes having been taken with it. -/
def compress (h block : List Word) (count : ℕ) (last : Bool) : List Word :=
  let v := h ++ initial
  let v := v.set 12 (v.getD 12 0 ^^^ BitVec.ofNat 64 count)
  let v := v.set 13 (v.getD 13 0 ^^^ BitVec.ofNat 64 (count / 2 ^ 64))
  let v := if last then v.set 14 (~~~v.getD 14 0) else v
  let v := schedules.foldl (round block) v
  h.zipWith (· ^^^ ·) ((v.take 8).zipWith (· ^^^ ·) (v.drop 8))

def words : List UInt8 → List Word
  | a :: b :: c :: d :: e :: f :: g :: h :: rest =>
    BitVec.ofNat 64 ([h, g, f, e, d, c, b, a].foldl (fun n x => 256 * n + x.toNat) 0) :: words rest
  | _ => []

/-- The blocks of a message from the byte `count` on, `n` of them whole and one padded. -/
def absorb : ℕ → ℕ → List UInt8 → List Word → List Word
  | 0, count, bytes, h =>
    compress h (words (bytes ++ List.replicate (128 - bytes.length) 0))
      (count + bytes.length) true
  | n + 1, count, bytes, h =>
    absorb n (count + 128) (bytes.drop 128)
      (compress h (words (bytes.take 128)) (count + 128) false)

def digest (size : ℕ) (message : List UInt8) : List UInt8 :=
  let parameters : Word := 0x01010000 ^^^ BitVec.ofNat 64 size
  let h := initial.set 0 (initial.getD 0 0 ^^^ parameters)
  let h := absorb ((message.length - 1) / 128) 0 message h
  (h.flatMap fun w => (List.range 8).map fun i => UInt8.ofNat (w.toNat / 256 ^ i)).take size

def hexByte (b : UInt8) : List Char := [Nat.digitChar (b.toNat / 16), Nat.digitChar (b.toNat % 16)]

def hexdigest (message : List UInt8) : String := String.ofList ((digest 32 message).flatMap hexByte)

example : hexdigest [97, 98, 99] =
    "bddd813c634239723171ef3fee98579b94964e3bb1cb3e427262c8c068d52319" := by
  decide +kernel

end Blake2b
