import CommunityDetection.Config
import CommunityDetection.Document.Value

/-!
# Configuration documents

A document is an object with any of the fields, or a list of their values in order from which
trailing ones may be missing. What is missing keeps its default. Unknown fields are passed over and
no field may occur twice.
-/

namespace CommunityDetection.Document

inductive Field where
  | maxLevels
  | gamma
  | theta
  | tolerance
  | randomSeed
  | keepLevels
  | concurrency
  | seedProperty
  | countLoops
deriving DecidableEq, Repr

namespace Field

def all : List Field :=
  [maxLevels, gamma, theta, tolerance, randomSeed, keepLevels, concurrency, seedProperty,
    countLoops]

def name : Field → String
  | maxLevels => "max_levels"
  | gamma => "gamma"
  | theta => "theta"
  | tolerance => "tolerance"
  | randomSeed => "random_seed"
  | keepLevels => "include_intermediate_communities"
  | concurrency => "concurrency"
  | seedProperty => "seed_property"
  | countLoops => "count_self_loops"

def read (config : Config Float) : Field → Reader (Config Float)
  | maxLevels => return { config with maxLevels := ← natValue }
  | gamma => return { config with gamma := ← floatValue }
  | theta => return { config with theta := ← floatValue }
  | tolerance => return { config with tolerance := ← floatValue }
  | randomSeed => do
    let seed ← optional natValue
    return { config with randomSeed := seed.map (BitVec.ofNat 64) }
  | keepLevels => return { config with keepLevels := ← boolValue }
  | concurrency => return { config with concurrency := ← natValue }
  | seedProperty => return { config with seedProperty := ← optional textValue }
  | countLoops => return { config with countLoops := ← boolValue }

end Field

def member (seen : List Field) (config : Config Float) : Reader (List Field × Config Float) := do
  let key ← quoted true
  match Field.all.find? fun field => field.name == key with
  | some field =>
    if field ∈ seen then throw .mismatch
    expect ':'
    return (field :: seen, ← field.read config)
  | none =>
    expect ':'
    passValue
    return (seen, config)

def members : (steps : Nat) → (first : Bool) → (seen : List Field) → (config : Config Float) →
    Reader (Config Float)
  | 0, _, _, _ => throw .endOfText
  | steps + 1, first, seen, config => do
    match ← peekSolid with
    | none => throw .endOfText
    | some '\x7d' =>
      skip
      return config
    | some c =>
      if !first then
        if c = ',' then skip else throw .malformed
      expect '"'
      let (seen, config) ← member seen config
      members steps false seen config

def values : (first : Bool) → (fields : List Field) → (config : Config Float) →
    Reader (Config Float)
  | _, [], config => do
    expect ']'
    return config
  | first, field :: fields, config => do
    match ← peekSolid with
    | none => throw .endOfText
    | some ']' =>
      skip
      return config
    | some c =>
      if !first then
        if c = ',' then skip else throw .malformed
      values false fields (← field.read config)

def document : Reader (Config Float) := do
  let config ←
    match ← peekSolid with
    | some '[' => do
      skip
      values true Field.all Config.standard
    | some '\x7b' => do
      skip
      members ((← get).length + 1) true [] Config.standard
    | _ => misfit
  match ← peekSolid with
  | none => return config
  | some _ => throw .malformed

end CommunityDetection.Document

namespace CommunityDetection

def Config.ofDocument (text : String) : Except (Error Float) (Config Float) := do
  let config ←
    match Document.document.run text.toList with
    | .ok (config, _) => pure config
    | .error fault => throw (.unreadable fault)
  config.validate
  return config

end CommunityDetection
