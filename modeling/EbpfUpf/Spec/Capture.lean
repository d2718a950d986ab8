import EbpfUpf.Impl.Capture
import EbpfUpf.Spec.Events

/-!
# Captures

What `bpftool map event_pipe` writes: for each event a header that begins with
`==`, and its bytes in two lines, sixteen in the first. The kernel fills the last
word of an event up, so there are more bytes than the programme sent. Lines of
other kinds may stand in between.
-/

open Framework

namespace UPF

/-- A line that ends with a newline, and nowhere before. -/
def IsWhole (line : Text) : Prop := IsLine line ∧ '\r' ∉ line

/-- A part of a capture: a line of another kind, or a sample of an event. -/
inductive Part where
  | other (line : Text) (whole : IsWhole line) (unmarked : startswith ['=', '='] line = false)
  | sample (header : Text) (whole : IsWhole header) (marked : startswith ['=', '='] header = true) (data : Bytes)
      (sized : 16 < data.length ∧ data.length ≤ 32)

/-- What stands before byte `i` of a line. -/
def gap : Nat → Text
  | 0 => []
  | 8 => [' ', ' ']
  | _ => [' ']

def hexBody (data : Bytes) : Text := data.zipIdx.flatMap fun x => gap x.2 ++ hexByte x.1

def hexLine (data : Bytes) : Text := hexBody data ++ ['\n']

namespace Part

def lines : Part → List Text
  | other line _ _ => [line]
  | sample header _ _ data _ => [header, hexLine (data.take 16), hexLine (data.drop 16)]

def data : Part → Option Bytes
  | other _ _ _ => none
  | sample _ _ _ data _ => some data

end Part

abbrev Capture := List Part

namespace Capture

def lines (c : Capture) : List Text := c.flatMap Part.lines

def text (c : Capture) : Text := c.lines.flatten

/-- The bytes of the samples. -/
def samples (c : Capture) : List Bytes := c.filterMap Part.data

/-- The capture has the events with the bytes `sent`. -/
def Shows (c : Capture) (sent : List Bytes) : Prop := List.Forall₂ (fun data shown => data <+: shown) sent c.samples

end Capture

/-- What a reader makes of the first `n` characters of a capture with the events `events`: it raises,
or has the first events, and maybe one more that need not have been there. -/
def Cut {α : Type} (events : List α) (r : Except CaptureError (List α)) : Prop :=
  (∃ e, r = .error e) ∨ ∃ k extra, r = .ok (events.take k ++ extra) ∧ extra.length ≤ 1

namespace analyze

def Event.bytes (e : Event) : Bytes := decisionBytes e.far_id e.qer_id e.generation e.pdr_id

structure Event.Fits (e : Event) : Prop where
  far_id : e.far_id < 2 ^ 32
  qer_id : e.qer_id < 2 ^ 32
  generation : e.generation < 2 ^ 32
  pdr_id : e.pdr_id < 2 ^ 32

end analyze

namespace analyze_latency

def Event.bytes (e : Event) : Bytes := latencyBytes e.latency_ns e.pkt_len

structure Event.Fits (e : Event) : Prop where
  latency_ns : e.latency_ns < 2 ^ 64
  pkt_len : e.pkt_len < 2 ^ 32

end analyze_latency

end UPF
