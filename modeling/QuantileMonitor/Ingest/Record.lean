import QuantileMonitor.Entity

/-! Latency records as they come from a probe: sixteen bytes, all numbers little-endian. Bytes 0 to 3
hold the entity, bytes 8 to 15 the nanoseconds; bytes 4 to 7 mean nothing. -/

namespace QuantileMonitor.Ingest

structure Record where
  entity : UInt32
  elapsed : UInt64
deriving DecidableEq

inductive RecordError
  | truncated (size : Nat)
  | trailing (size : Nat)
deriving DecidableEq

def RecordError.message : RecordError → String
  | truncated size => s!"record too short: {size} bytes"
  | trailing size => s!"trailing {size} bytes after last record"

def littleEndian (bytes : List UInt8) : Nat := bytes.foldr (fun b n => b.toNat + 256 * n) 0

def toLittleEndian (n : Nat) : Nat → List UInt8
  | 0 => []
  | k + 1 => n.toUInt8 :: toLittleEndian (n / 256) k

namespace Record

def size : Nat := 16

def ofBytes (bytes : List UInt8) : Record where
  entity := (littleEndian (bytes.take 4)).toUInt32
  elapsed := (littleEndian ((bytes.drop 8).take 8)).toUInt64

def first (bytes : List UInt8) : Except RecordError Record :=
  if bytes.length < size then .error (.truncated bytes.length) else .ok (ofBytes bytes)

/-- All records in a row; a tail that is shorter than a record is an error at the end. -/
def all (bytes : List UInt8) : List (Except RecordError Record) :=
  if bytes.length < size then
    if bytes.isEmpty then [] else [.error (.trailing bytes.length)]
  else .ok (ofBytes bytes) :: all (bytes.drop size)
termination_by bytes.length
decreasing_by simp only [List.length_drop, size] at *; omega

def toBytes (r : Record) (padding : UInt32) : List UInt8 :=
  toLittleEndian r.entity.toNat 4 ++ toLittleEndian padding.toNat 4 ++ toLittleEndian r.elapsed.toNat 8

/-- Whole microseconds, one at the least, so that no completed operation looks idle. -/
def microseconds (r : Record) : Nat := max (r.elapsed.toNat / 1000) 1

def sample (r : Record) (origin : Origin) : Sample := ⟨origin.key r.entity, r.microseconds⟩

end Record

end QuantileMonitor.Ingest
