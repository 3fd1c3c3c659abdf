/-!
# Contiguous spans of nodes

The nodes `0..n` are cut into spans whose results are combined in order. `Span.even` cuts into
spans of one length and `Span.byDegree` into spans of about the same number of relationships.
-/

namespace CommunityDetection

/-- The nodes from `start` up to, and without, `stop`. -/
structure Span where
  start : Nat
  stop : Nat
deriving DecidableEq, Repr

namespace Span

def leastSize : Nat := 1000

def nodes (span : Span) : List Nat := List.range' span.start (span.stop - span.start)

def ceilDiv (a b : Nat) : Nat := (a + b - 1) / b

def evenLength (n parts least : Nat) : Nat := max (max (ceilDiv n (max parts 1)) least) 1

/-- Cuts `0..n` into at most `parts` spans of one length, at least `least`; the last may be
shorter. -/
def even (n parts least : Nat) : List Span :=
  let length := evenLength n parts least
  (List.range (ceilDiv n length)).map fun i => ⟨i * length, min (i * length + length) n⟩

/-- Cuts the nodes from `node` on, whose degrees are listed. The open span begins at `start` and
carries `load`, one per node and one per relationship; it is closed after the first node with which
its load reaches `target` and its size `least`. -/
def cut (target least : Nat) : (start node load : Nat) → (degrees : List Nat) → List Span
  | start, node, _, [] => if start < node then [⟨start, node⟩] else []
  | start, node, load, degree :: degrees =>
    if target ≤ load + (degree + 1) ∧ least ≤ node + 1 - start then
      ⟨start, node + 1⟩ :: cut target least (node + 1) (node + 1) 0 degrees
    else cut target least start (node + 1) (load + (degree + 1)) degrees

def byDegree (degrees : List Nat) (parts least : Nat) : List Span :=
  if parts ≤ 1 ∨ degrees.length ≤ least then even degrees.length 1 least
  else
    let load := degrees.foldl (· + ·) 0 + degrees.length
    cut (ceilDiv load parts) least 0 0 0 degrees

end Span

end CommunityDetection
