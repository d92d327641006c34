import QuantileMonitor.Text.Blank
import QuantileMonitor.Text.Numeral
import QuantileMonitor.Word

/-! The queue depth of a device, from the two counters of reads and writes in flight. -/

namespace QuantileMonitor.Poll

open Text

/-- The sum of exactly two numerals between blanks; any other text counts as depth 0. -/
def depthOfText (text : List Char) : Nat :=
  match fields text with
  | [reads, writes] =>
    match unsigned? Word.bound reads, unsigned? Word.bound writes with
    | some reads, some writes => Word.addSat reads writes
    | _, _ => 0
  | _ => 0

def depthOfBytes (bytes : ByteArray) : Nat :=
  match String.fromUTF8? bytes with
  | none => 0
  | some text => depthOfText text.toList

end QuantileMonitor.Poll
