import MarkdownVault.Graph.Basic

/-!
# Neighbourhoods and shortest paths

Both go through the graph in layers: a layer holds the nodes one step beyond the layer before it
that no earlier layer holds, in the order in which they are found.
-/

namespace MarkdownVault

/-- Which edges a walk may follow. -/
inductive LinkDirection where
  | outgoing
  | incoming
  | both
  deriving DecidableEq, Repr

namespace LinkDirection

def text : LinkDirection → String
  | outgoing => "outgoing"
  | incoming => "incoming"
  | both => "both"

def all : List LinkDirection := [outgoing, incoming, both]

def ofText? (s : String) : Option LinkDirection := all.find? fun d => d.text = s

end LinkDirection

namespace Graph

/-- The paths at the other ends of the edges of a node. -/
def endsOf (direction : LinkDirection) (n : GraphNode) : List String :=
  match direction with
  | .outgoing => n.outgoing
  | .incoming => n.incoming
  | .both => (n.outgoing ++ n.incoming).eraseDups

/-- The nodes one step away from a path. -/
def adjacent (g : Graph) (direction : LinkDirection) (path : String) : List String :=
  match g.find? path with
  | none => []
  | some n => (endsOf direction n).filter g.has

/-- The first occurrences of what is not in `seen`. -/
def fresh (seen : List String) : List String → List String
  | [] => []
  | p :: ps => if seen.contains p then fresh seen ps else p :: fresh (p :: seen) ps

/-- The layers after one, at most `depth` of them; it ends where a layer would be empty. -/
def layersAfter (g : Graph) (direction : LinkDirection) (seen layer : List String) :
    Nat → List (List String)
  | 0 => []
  | depth + 1 =>
    let next := fresh seen (layer.flatMap (g.adjacent direction))
    if next.isEmpty then []
    else next :: layersAfter g direction (next.reverse ++ seen) next depth

/-- The paths within `depth` steps of one, nearest first, without the start. -/
def around (g : Graph) (direction : LinkDirection) (depth : Nat) (start : String) :
    List String :=
  (g.layersAfter direction [start] [start] depth).flatten

/-- The first `limit` nodes of a neighbourhood. -/
def neighbors (g : Graph) (path : String) (depth : Int) (direction : LinkDirection)
    (limit : Int) : List GraphNode :=
  if g.has path then
    g.nodesAt ((g.around direction depth.toNat path).take limit.toNat)
  else []

/-! ## Shortest paths -/

/-- The layers up to the first one that holds the target; none if no layer does. -/
def layersTo? (target : String) : List (List String) → Option (List (List String))
  | [] => none
  | layer :: layers =>
    if layer.contains target then some [layer]
    else (layersTo? target layers).map (layer :: ·)

/-- The part of each layer from which the target can still be reached in the layers behind it. -/
def towards (g : Graph) (target : String) : List (List String) → List (List String)
  | [] => []
  | [_] => [[target]]
  | layer :: layers =>
    let behind := towards g target layers
    let ends := behind.headD []
    layer.filter (fun p => (g.adjacent .both p).any ends.contains) :: behind

/-- The results of `f` on the items in turn, at most `limit` in all; `f` is told how many are
still wanted. -/
def collect {α β : Type} (limit : Nat) (f : Nat → α → List β) : List α → List β
  | [] => []
  | a :: as =>
    if limit = 0 then []
    else
      let found := f limit a
      found ++ collect (limit - found.length) f as

/-- At most `limit` walks that go from a path through the layers, one step each. -/
def walks (g : Graph) : List (List String) → Nat → String → List (List String)
  | [], limit, path => if limit = 0 then [] else [[path]]
  | layer :: layers, limit, path =>
    collect limit (fun left p => (walks g layers left p).map (path :: ·))
      ((g.adjacent .both path).filter layer.contains)

/-- The first `limit` shortest paths between two notes along links in either direction, if they
have at most `depth` steps. -/
def shortestPaths (g : Graph) (source target : String) (depth limit : Int) :
    List (List String) :=
  if !g.has source || !g.has target then []
  else if source = target then [[source]]
  else match layersTo? target (g.layersAfter .both [source] [source] depth.toNat) with
    | none => []
    | some layers => g.walks (g.towards target layers) limit.toNat source

end Graph

end MarkdownVault
