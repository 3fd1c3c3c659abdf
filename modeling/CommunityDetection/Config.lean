import CommunityDetection.Error
import CommunityDetection.Scalar

/-!
# Configurations

The parameters of a search, their defaults, and the ranges in which they are accepted.
-/

namespace CommunityDetection

structure Config (α : Type) where
  /-- The largest number of iterations. -/
  maxLevels : Nat
  gamma : α
  theta : α
  /-- The least gain in modularity with which the iterations go on. -/
  tolerance : α
  randomSeed : Option (BitVec 64)
  keepLevels : Bool
  /-- The number of spans into which nodes are cut. -/
  concurrency : Nat
  seedProperty : Option String
  countLoops : Bool
deriving BEq, Repr

namespace Config

variable {α : Type} [Scalar α]

def standard : Config α where
  maxLevels := 10
  gamma := 1
  theta := Scalar.ratio 1 100
  tolerance := Scalar.ratio 1 10000
  randomSeed := none
  keepLevels := false
  concurrency := 4
  seedProperty := none
  countLoops := true

def fault? (config : Config α) : Option (InvalidInput α) :=
  if config.maxLevels < 1 then some .noLevels
  else if ¬(0 < config.gamma ∧ Scalar.isFinite config.gamma) then
    some (.gammaOutOfRange config.gamma)
  else if ¬(0 < config.theta ∧ Scalar.isFinite config.theta) then
    some (.thetaOutOfRange config.theta)
  else if ¬(0 ≤ config.tolerance ∧ Scalar.isFinite config.tolerance) then
    some (.toleranceOutOfRange config.tolerance)
  else if config.concurrency < 1 then some .noConcurrency
  else none

def validate (config : Config α) : Except (Error α) Unit :=
  match config.fault? with
  | some fault => .error (.invalid fault)
  | none => .ok ()

end Config

end CommunityDetection
