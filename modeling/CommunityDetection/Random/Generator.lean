/-!
# Random words

A permuted congruential generator: a 128-bit state steps through a congruence, and each state gives
a 64-bit word, the exclusive or of its halves rotated by its six highest bits. Equal seeds give equal
words.
-/

namespace CommunityDetection.Random

structure Generator where
  state : BitVec 128
  increment : BitVec 128
deriving DecidableEq, Repr

namespace Generator

def multiplier : BitVec 128 := 0x2360ED051FC65DA44385DF649FCCF645

def step (generator : Generator) : Generator :=
  { generator with state := generator.state * multiplier + generator.increment }

def word (generator : Generator) : BitVec 64 :=
  let high := (generator.state >>> 64).setWidth 64
  let low := generator.state.setWidth 64
  (high ^^^ low).rotateRight (generator.state >>> 122).toNat

def next : StateM Generator (BitVec 64) := fun generator =>
  let generator := generator.step
  (generator.word, generator)

def nextHalf : StateM Generator (BitVec 32) := do
  return (← next).setWidth 32

def seedWords : (count : Nat) → (seed : BitVec 64) → List (BitVec 32)
  | 0, _ => []
  | count + 1, seed =>
    let seed := seed * 6364136223846793005 + 11634580027462260723
    let mixed : BitVec 32 := (((seed >>> 18) ^^^ seed) >>> 27).setWidth 32
    mixed.rotateRight (seed >>> 59).toNat :: seedWords count seed

def joinWords (words : List (BitVec 32)) : BitVec 128 :=
  words.foldr (fun word joined => joined <<< 32 ||| word.setWidth 128) 0

def ofSeed (seed : BitVec 64) : Generator :=
  let words := seedWords 8 seed
  let increment := joinWords (words.drop 4) ||| 1
  { state := joinWords (words.take 4) + increment, increment : Generator }.step

end Generator

def iterationSeed (seed : BitVec 64) (iteration : Nat) : BitVec 64 :=
  seed ^^^ (BitVec.ofNat 64 iteration + 1) * 0x9E3779B97F4A7C15

end CommunityDetection.Random
