import QuantileMonitor.Text.Blank

/-! Places in a pattern, and the way through it. -/

namespace QuantileMonitor.Pattern

structure Place where
  offset : Nat
  line : Nat
  column : Nat
deriving DecidableEq

namespace Place

def start : Place := ⟨0, 1, 1⟩

def after (p : Place) (c : Char) : Place :=
  if c = '\n' then ⟨p.offset + 1, p.line + 1, 1⟩ else ⟨p.offset + 1, p.line, p.column + 1⟩

end Place

structure Extent where
  start : Place
  stop : Place
deriving DecidableEq

namespace Extent

def isOneLine (e : Extent) : Bool := e.start.line = e.stop.line

def le (d e : Extent) : Bool :=
  d.start.offset < e.start.offset || (d.start.offset = e.start.offset && d.stop.offset ≤ e.stop.offset)

end Extent

structure Cursor where
  rest : List Char
  place : Place
  spaced : Bool

def skipFrom (inComment : Bool) (p : Place) : List Char → Place × List Char
  | [] => (p, [])
  | c :: rest =>
    if inComment then skipFrom (c ≠ '\n') (p.after c) rest
    else if Text.isBlank c then skipFrom false (p.after c) rest
    else if c = '#' then skipFrom true (p.after c) rest
    else (p, c :: rest)

namespace Cursor

def start (pattern : List Char) : Cursor := ⟨pattern, .start, false⟩

def here (c : Cursor) : Extent := ⟨c.place, c.place⟩

def since (c : Cursor) (start : Place) : Extent := ⟨start, c.place⟩

def drop (c : Cursor) : Nat → Cursor
  | 0 => c
  | n + 1 =>
    match c.rest with
    | [] => c
    | char :: rest => drop { c with rest, place := c.place.after char } n

def next (c : Cursor) : Cursor := c.drop 1

def nextExtent (c : Cursor) : Extent := c.next.since c.place

def skip (c : Cursor) : Cursor :=
  if c.spaced then
    let (place, rest) := skipFrom false c.place c.rest
    { c with rest, place }
  else c

def pass (c : Cursor) : Cursor := c.next.skip

def passWhile (kind : Char → Bool) : Nat → Cursor → List Char × Cursor
  | 0, c => ([], c)
  | n + 1, c =>
    match c.rest with
    | [] => ([], c)
    | char :: _ =>
      if kind char then
        let (chars, c) := passWhile kind n c.pass
        (char :: chars, c)
      else ([], c)

def takeWhile (kind : Char → Bool) (c : Cursor) : List Char × Cursor := c.passWhile kind c.rest.length

def second? (c : Cursor) : Option Char :=
  let after := c.rest.drop 1
  if c.spaced then
    let seen :=
      match after.dropWhile Text.isBlank with
      | '#' :: more => more.dropWhile Text.isBlank
      | more => more
    seen.head?.or after.head?
  else after.head?

end Cursor

end QuantileMonitor.Pattern
