import TimedGraph.Graph.Basic

/-!
# Handles

A graph can be held through several handles, which all see the same graph.  It can be
taken out of the handles only by the last one.
-/

namespace TimedGraph

/-- A graph with the handles that hold it. -/
structure Handles where
  graph : Graph
  /-- The number of handles beside the one in use. -/
  others : Nat
  deriving DecidableEq

namespace Handles

/-- Holds a graph through one handle. -/
def ofGraph (graph : Graph) : Handles := ⟨graph, 0⟩

/-- The number of handles. -/
def count (handles : Handles) : Nat :=
  handles.others + 1

/-- Makes one more handle to the same graph. -/
def add (handles : Handles) : Handles :=
  { handles with others := handles.others + 1 }

/-- Gives up the handle in use, unless it is the last one. -/
def release (handles : Handles) : Handles :=
  { handles with others := handles.others - 1 }

/-- The graph itself, if the handle in use is the last one. -/
def take? (handles : Handles) : Option Graph :=
  if handles.others = 0 then some handles.graph else none

/-- Works on the graph, for all handles to see. -/
def update {α : Type} (handles : Handles) (work : Graph → α × Graph) : α × Handles :=
  let (result, graph) := work handles.graph
  (result, { handles with graph := graph })

end Handles

end TimedGraph
