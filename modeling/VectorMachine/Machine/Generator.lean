import VectorMachine.Vec4

/-!
# Random draws

Draws are numbers from zero up to one.  A seeded stream comes from a permuted
congruential generator with 128 bits of state; an unseeded machine draws from
whatever stream it is given.
-/

namespace VectorMachine

inductive Generator where
  | congruential (state : BitVec 128)
  /-- The same draws over and over again; zeros when there are none. -/
  | cycle (draws : List Float32)
deriving DecidableEq

namespace Generator

def seeded (seed : UInt64) (chunk : Nat) : Generator :=
  .congruential (seed.toBitVec ++ BitVec.ofNat 64 chunk)

def multiplier : BitVec 128 := 2549297995355413924#64 ++ 4865540595714422341#64

def increment : BitVec 128 := 6364136223846793005#64 ++ 1442695040888963407#64

def advance (state : BitVec 128) : BitVec 128 :=
  state * multiplier + increment

def bitsOf (state : BitVec 128) : UInt64 :=
  let high := UInt64.ofBitVec (state.extractLsb' 64 64)
  let low := UInt64.ofBitVec (state.extractLsb' 0 64)
  let high := high ^^^ (high >>> 32)
  let high := high * 0xda942042e4dd58b5
  let high := high ^^^ (high >>> 48)
  high * (low ||| 1)

/-- The number from zero up to one that 64 random bits stand for: 24 of them,
as the numerator over two to the twenty-fourth. -/
def unit (bits : UInt64) : Float32 :=
  ((bits >>> 32) &&& 0xffffff).toUInt32.toFloat32 / 16777216

def next : Generator -> Float32 × Generator
  | .congruential state =>
      let state := advance state
      (unit (bitsOf state), .congruential state)
  | .cycle [] => (0, .cycle [])
  | .cycle (d :: rest) => (d, .cycle (rest ++ [d]))

def nextVector (g : Generator) : Vec4 × Generator :=
  let (x, g) := g.next
  let (y, g) := g.next
  let (z, g) := g.next
  let (w, g) := g.next
  (⟨x, y, z, w⟩, g)

end Generator
end VectorMachine
