import QuantileMonitor.Pattern.Fault
import QuantileMonitor.Pattern.Tree

/-! How deep a pattern is nested. -/

namespace QuantileMonitor.Pattern

def deeper (depth : Nat) (extent : Extent) : Except Fault Nat :=
  if depth < Flaw.depthLimit then .ok (depth + 1) else .error ⟨.tooDeep, extent⟩

mutual
def ClassSet.checkDepth (depth : Nat) : ClassSet → Except Fault Unit
  | .bracketed e _ inside => do inside.checkDepth (← deeper depth e)
  | .union e items => do ClassSet.checkDepths (← deeper depth e) items
  | .operation e _ left right => do
    let depth ← deeper depth e
    left.checkDepth depth
    right.checkDepth depth
  | _ => return ()

def ClassSet.checkDepths (depth : Nat) : List ClassSet → Except Fault Unit
  | [] => return ()
  | s :: rest => do
    s.checkDepth depth
    ClassSet.checkDepths depth rest
end

mutual
def Tree.checkDepth (depth : Nat) : Tree → Except Fault Unit
  | .bracketed e _ inside => do inside.checkDepth (← deeper depth e)
  | .repetition e sub | .group e _ sub => do sub.checkDepth (← deeper depth e)
  | .alternation e trees | .concat e trees => do Tree.checkDepths (← deeper depth e) trees
  | _ => return ()

def Tree.checkDepths (depth : Nat) : List Tree → Except Fault Unit
  | [] => return ()
  | t :: rest => do
    t.checkDepth depth
    Tree.checkDepths depth rest
end

end QuantileMonitor.Pattern
