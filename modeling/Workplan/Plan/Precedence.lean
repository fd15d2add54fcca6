/-!
# Precedence among positions

Which positions of a list have to come before which. `arrange` puts the positions into an order
that keeps to this, always taking the smallest position that can come next; it counts, for each
position, how many of those before it are still to come. Where no order keeps to it because of a
cycle, `cycleMember?` names a position on one: a depth-first search along the precedences finishes
the positions in some order, and an edge from a position to one that finishes later closes a cycle.
-/

namespace Workplan

/-- For each position, the positions that come before it, each one once. -/
structure Precedence where
  before : Array (List Nat)

namespace Precedence

def size (g : Precedence) : Nat :=
  g.before.size

def predecessors (g : Precedence) (v : Nat) : List Nat :=
  g.before[v]?.getD []

def successors (g : Precedence) (v : Nat) : List Nat :=
  (List.range g.size).filter fun w => (g.predecessors w).contains v

structure Search where
  /-- The positions that were entered. -/
  entered : List Nat
  /-- The positions that were left, the last one first. -/
  finished : List Nat
  /-- The first position entered that comes before itself. -/
  loop : Option Nat

namespace Search

def start : Search := ⟨[], [], none⟩

end Search

/--
Visits `v` and all that is reached from it through positions not yet entered. `depth` bounds the
length of a way of such positions.
-/
def visit (successors : Nat → List Nat) : (depth : Nat) → Search → Nat → Search
  | 0, s, _ => s
  | depth + 1, s, v =>
    if s.entered.contains v then s
    else
      let next := successors v
      let loop := s.loop.or (if next.contains v then some v else none)
      let s := next.foldl (visit successors depth) ⟨v :: s.entered, s.finished, loop⟩
      { s with finished := v :: s.finished }

def successorTable (g : Precedence) : Array (List Nat) :=
  ((List.range g.size).map g.successors).toArray

def search (g : Precedence) : Search :=
  let table := g.successorTable
  (List.range g.size).foldl (visit (fun v => table[v]?.getD []) g.size) .start

/--
The first position with an edge to one that finished after it; `earlier` holds the positions
that finished after those of the list.
-/
def backEdge? (g : Precedence) : (earlier finished : List Nat) → Option Nat
  | _, [] => none
  | earlier, v :: rest =>
    match (g.predecessors v).find? fun p => p != v && !earlier.contains p with
    | some p => some p
    | none => backEdge? g (v :: earlier) rest

/-- A position on a cycle, if there is a cycle. A position before itself goes first. -/
def cycleMember? (g : Precedence) : Option Nat :=
  let s := g.search
  match s.loop with
  | some v => some v
  | none => g.backEdge? [] s.finished

structure Frontier where
  /-- For each position, how many of those before it are still to come. -/
  inDegree : Array Nat
  /-- The positions that can come next. -/
  ready : List Nat

namespace Frontier

/-- How many of the positions before `v` are still to come. -/
def left (f : Frontier) (v : Nat) : Nat :=
  f.inDegree[v]?.getD 0

/-- One of the positions before `w` has come. With the last of them `w` becomes ready. -/
def lower (f : Frontier) (w : Nat) : Frontier :=
  let left := f.left w - 1
  ⟨f.inDegree.setIfInBounds w left, if left = 0 then w :: f.ready else f.ready⟩

def advance (f : Frontier) (v : Nat) (successors : List Nat) : Frontier :=
  successors.foldl lower { f with ready := f.ready.erase v }

end Frontier

def frontier (g : Precedence) : Frontier where
  inDegree := ((List.range g.size).map fun v => (g.predecessors v).length).toArray
  ready := (List.range g.size).filter fun v => (g.predecessors v).length = 0

/-- Takes the smallest of the ready positions, at most `count` times, until none is ready. -/
def arrangeFrom (successors : Nat → List Nat) : (count : Nat) → Frontier → List Nat
  | 0, _ => []
  | count + 1, f =>
    match f.ready.min? with
    | none => []
    | some v => v :: arrangeFrom successors count (f.advance v (successors v))

/-- The positions in an order that keeps to the precedence, the smallest possible one first. -/
def arrange (g : Precedence) : List Nat :=
  let table := g.successorTable
  arrangeFrom (fun v => table[v]?.getD []) g.size g.frontier

end Precedence
end Workplan
