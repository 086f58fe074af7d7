import RegionSync.Binary.Arithmetic
import RegionSync.Fault
import RegionSync.Text.Utf8

/-!
A seeded source of random words: the ChaCha block function with eight rounds, a 64-bit block counter
and stream number zero. Draws of every kind take words in order, so a run is fixed by its seed.
-/

namespace RegionSync.Random

/-- The sixteen words of a block. -/
abbrev Block := Vector UInt32 16

def rotate (x : UInt32) (k : UInt32) : UInt32 :=
  x <<< k ||| x >>> (32 - k)

def quarterRound (s : Block) (a b c d : Fin 16) : Block :=
  let s := s.set a (s[a] + s[b])
  let s := s.set d (rotate (s[d] ^^^ s[a]) 16)
  let s := s.set c (s[c] + s[d])
  let s := s.set b (rotate (s[b] ^^^ s[c]) 12)
  let s := s.set a (s[a] + s[b])
  let s := s.set d (rotate (s[d] ^^^ s[a]) 8)
  let s := s.set c (s[c] + s[d])
  s.set b (rotate (s[b] ^^^ s[c]) 7)

/-- One round on the columns and one on the diagonals. -/
def doubleRound (s : Block) : Block :=
  let s := quarterRound s 0 4 8 12
  let s := quarterRound s 1 5 9 13
  let s := quarterRound s 2 6 10 14
  let s := quarterRound s 3 7 11 15
  let s := quarterRound s 0 5 10 15
  let s := quarterRound s 1 6 11 12
  let s := quarterRound s 2 7 8 13
  quarterRound s 3 4 9 14

/-- The block with this number under this key. -/
def block (key : Vector UInt32 8) (counter : UInt64) : Block :=
  let s : Block := #v[0x61707865, 0x3320646e, 0x79622d32, 0x6b206574,
    key[0], key[1], key[2], key[3], key[4], key[5], key[6], key[7],
    counter.toUInt32, (counter >>> 32).toUInt32, 0, 0]
  let t := doubleRound (doubleRound (doubleRound (doubleRound s)))
  Vector.zipWith (· + ·) s t

structure Generator where
  key : Vector UInt32 8
  counter : UInt64
  /-- Words of the current block that are not drawn yet. -/
  pending : List UInt32
  deriving DecidableEq

namespace Generator

/-- One step of the sequence that spreads a seed over the key. -/
def spread (state : UInt64) : UInt32 × UInt64 :=
  let state := state * 6364136223846793005 + 11634580027462260723
  let x := (((state >>> 18) ^^^ state) >>> 27).toUInt32
  let turn := (state >>> 59).toUInt32
  (if turn = 0 then x else x >>> turn ||| x <<< (32 - turn), state)

def ofSeed (seed : UInt64) : Generator :=
  let (k0, s) := spread seed
  let (k1, s) := spread s
  let (k2, s) := spread s
  let (k3, s) := spread s
  let (k4, s) := spread s
  let (k5, s) := spread s
  let (k6, s) := spread s
  let (k7, _) := spread s
  ⟨#v[k0, k1, k2, k3, k4, k5, k6, k7], 0, []⟩

def word (g : Generator) : UInt32 × Generator :=
  match g.pending with
  | w :: rest => (w, { g with pending := rest })
  | [] =>
    let b := block g.key g.counter
    (b[0], { g with counter := g.counter + 1, pending := b.toList.drop 1 })

/-- Draws a word of 64 bits, its low half first. -/
def long (g : Generator) : UInt64 × Generator :=
  let (low, g) := g.word
  let (high, g) := g.word
  (low.toUInt64 ||| high.toUInt64 <<< 32, g)

/-- Draws `4 n` bytes, each word from its low end. -/
def bytes (g : Generator) : Nat → Bytes × Generator
  | 0 => ([], g)
  | n + 1 =>
    let (w, g) := g.word
    let (rest, g) := bytes g n
    (w.toUInt8 :: (w >>> 8).toUInt8 :: (w >>> 16).toUInt8 :: (w >>> 24).toUInt8 :: rest, g)

theorem length_bytes (g : Generator) (n : Nat) : (g.bytes n).1.length = 4 * n := by
  induction n generalizing g with
  | zero => rfl
  | succ n ih =>
    simp only [bytes, List.length_cons, ih]
    omega

/-- Draws a number of `[0, 1)` on a grid of `2 ^ -24`. -/
def fraction32 (g : Generator) : Single × Generator :=
  let (w, g) := g.word
  (.ofRatio false (w >>> 8).toNat (2 ^ 24), g)

/-- Draws a number of `[0, 1)` on a grid of `2 ^ -53`. -/
def fraction64 (g : Generator) : Double × Generator :=
  let (w, g) := g.long
  (.ofRatio false (w >>> 11).toNat (2 ^ 53), g)

/-- Draws a number strictly between 0 and 1. -/
def openFraction (g : Generator) : Double × Generator :=
  let (w, g) := g.long
  (.ofRatio false (2 * (w >>> 12).toNat + 1) (2 ^ 53), g)

/-- Draws `true` with this chance. Certainty draws nothing. -/
def chance (p : Double) (g : Generator) : Except Fault (Bool × Generator) :=
  if Binary.eq p (.ofNat 1) then .ok (true, g)
  else if Binary.le .zero p && Binary.lt p (.ofNat 1) then
    let (w, g) := g.long
    .ok (decide (w.toNat < p.scaledFloor (2 ^ 64)), g)
  else .error .badChance

end Generator

end RegionSync.Random
