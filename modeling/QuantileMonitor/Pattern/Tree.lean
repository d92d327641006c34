import QuantileMonitor.Pattern.Place

/-! Patterns as trees. What they match plays no part; what can be wrong with them does. -/

namespace QuantileMonitor.Pattern

structure Literal where
  extent : Extent
  char : Char
  isByte : Bool

inductive SetOperation
  | intersection
  | difference
  | symmetricDifference
deriving DecidableEq

inductive ClassSet
  | empty (extent : Extent)
  | literal (l : Literal)
  | range (extent : Extent) (first last : Literal)
  | named (extent : Extent) (negated : Bool)
  | shorthand (extent : Extent) (negated : Bool)
  | property (extent : Extent)
  | bracketed (extent : Extent) (negated : Bool) (inside : ClassSet)
  | union (extent : Extent) (items : List ClassSet)
  | operation (extent : Extent) (op : SetOperation) (left right : ClassSet)

def ClassSet.extent : ClassSet → Extent
  | literal l => l.extent
  | empty e | range e _ _ | named e _ | shorthand e _ | property e | bracketed e _ _ | union e _
  | operation e _ _ _ => e

inductive FlagMark
  | negation
  | flag (name : Char)
deriving DecidableEq

def flagState? (name : Char) : List FlagMark → Option Bool
  | [] => none
  | .negation :: rest => if rest.contains (.flag name) then some false else none
  | .flag other :: rest => if other = name then some true else flagState? name rest

inductive Tree
  | empty (extent : Extent)
  | flags (extent : Extent) (marks : List FlagMark)
  | literal (l : Literal)
  | dot (extent : Extent)
  | assertion (extent : Extent) (atWord : Bool)
  | shorthand (extent : Extent) (negated : Bool)
  | property (extent : Extent)
  | bracketed (extent : Extent) (negated : Bool) (inside : ClassSet)
  | repetition (extent : Extent) (sub : Tree)
  | group (extent : Extent) (marks : List FlagMark) (sub : Tree)
  | alternation (extent : Extent) (branches : List Tree)
  | concat (extent : Extent) (items : List Tree)

namespace Tree

def extent : Tree → Extent
  | literal l => l.extent
  | empty e | flags e _ | dot e | assertion e _ | shorthand e _ | property e | bracketed e _ _
  | repetition e _ | group e _ _ | alternation e _ | concat e _ => e

def isRepeatable : Tree → Bool
  | empty _ | flags _ _ => false
  | _ => true

def ofItems (extent : Extent) : List Tree → Tree
  | [] => empty extent
  | [item] => item
  | items => concat extent items

end Tree

end QuantileMonitor.Pattern
