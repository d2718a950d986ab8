import EbpfUpf.Framework.Text

/-!
# The readers of captures

`test/analyze_latency.py` and `results_native/transactional_consistency/analyze.py`
read what `bpftool map event_pipe` has written, by the same loop. The floating
point numbers that the first one prints are left out.
-/

open Framework

namespace UPF

inductive CaptureError where
  | IndexError
  | ValueError
  deriving DecidableEq

/-- `raw`, from the two lines after a header. -/
def capturedBytes (hex1 hex2 : Text) : Except CaptureError Bytes :=
  match fromhex (without ' ' (strip hex1) ++ without ' ' (strip hex2)) with
  | some raw => .ok (raw.take 16)
  | none => .error .ValueError

/-- The loop of `parse`, on what is left of `lines`. -/
def parseLines {α : Type} (event : Bytes → α) : List Text → Except CaptureError (List α)
  | [] => .ok []
  | line :: lines =>
    if startswith ['=', '='] line then
      match lines with
      | [] => .error .IndexError
      | [hex1] => do
        return [event (← capturedBytes hex1 [])]
      | hex1 :: hex2 :: lines => do
        let raw ← capturedBytes hex1 hex2
        return event raw :: (← parseLines event lines)
    else parseLines event lines

namespace analyze_latency

structure Event where
  latency_ns : Nat
  pkt_len : Nat
  deriving DecidableEq

def event (raw : Bytes) : Event := ⟨raw.get 0 8, raw.get 8 4⟩

/-- `parse`, on the text of the file. -/
def parse (text : Text) : Except CaptureError (List Event) := parseLines event (readlines (universal text))

end analyze_latency

namespace analyze

structure Event where
  far_id : Nat
  qer_id : Nat
  generation : Nat
  pdr_id : Nat
  deriving DecidableEq

def Event.pair (e : Event) : Nat × Nat := (e.far_id, e.qer_id)

def event (raw : Bytes) : Event := ⟨raw.get 0 4, raw.get 4 4, raw.get 8 4, raw.get 12 4⟩

/-- `parse`, on the text of the file. -/
def parse (text : Text) : Except CaptureError (List Event) := parseLines event (readlines (universal text))

def valid_pairs : List (Nat × Nat) := [(1, 1), (3, 3)]

def torn (events : List Event) : List Event := events.filter fun e => e.pair ∉ valid_pairs

/-- The pair that a generation is taken to stand for. -/
def pairOf (gen : Nat) : Nat × Nat := if gen % 2 = 0 then (1, 1) else (3, 3)

def mismatches (events : List Event) : Nat := events.countP fun e => e.pair ≠ pairOf e.generation

/-- How often each pair occurs. -/
def pair_distribution (events : List Event) (pair : Nat × Nat) : Nat := (events.map Event.pair).count pair

def distinct_generations (events : List Event) : Nat := (events.map Event.generation).dedup.length

end analyze

end UPF
