import EbpfUpf.Framework.Typestate
import EbpfUpf.Impl.System
import EbpfUpf.Spec.Rules

/-!
# What an event reports

A programme sends an event of one of three kinds (`decision_event`,
`latency_event` and `buffer_event` of `bpf/upf_maps.h`). Each one tells of what
the packet found on its way: the session and the bundle that its rule came
from, the FAR that has it buffered, its length, and the readings of the clock
(`Faithful`). `reporting` asks this of every event of a programme, and
`Tallied` that there are as many as the counters say.
-/

open Framework

namespace UPF

/-- The bytes of a `decision_event`. -/
def decisionBytes (far_id qer_id generation pdr_id : Nat) : Bytes :=
  toLE 4 far_id ++ toLE 4 qer_id ++ toLE 4 generation ++ toLE 4 pdr_id

/-- The bytes of a `latency_event`. -/
def latencyBytes (latency_ns pkt_len : Nat) : Bytes := toLE 8 latency_ns ++ toLE 4 pkt_len ++ toLE 4 0

/-- The bytes of a `buffer_event`. -/
def bufferBytes (teid pdr_id far_id pkt_len ts_ns : Nat) : Bytes :=
  toLE 4 teid ++ toLE 4 pdr_id ++ toLE 4 far_id ++ toLE 4 pkt_len ++ toLE 8 ts_ns

/-- What a programme found so far. -/
structure Findings where
  /-- The values that it found in the maps of the rules. -/
  found : List (MapName × Nat × Bytes)
  /-- The length of the packet, as it asked for it last. -/
  len : Option Nat
  /-- The readings of the clock, oldest first. -/
  times : List Nat
  /-- How many events it sent, and how often it counted a packet that it
  forwards or buffers. -/
  events : Nat
  forwards : Nat
  buffers : Nat

/-- The maps that a packet's rule comes from. -/
def MapName.isRule : MapName → Bool
  | .teid_session | .tc_bundle_map | .far_table => true
  | _ => false

namespace Findings

def start : Findings := ⟨[], none, [], 0, 0, 0⟩

/-- The session of `teid` was found, and the bundle of its PDR `pdr_id`. -/
def Resolved (K : Findings) (teid pdr_id : Nat) (t : Tuple) : Prop :=
  ∃ sess bundle, (.teid_session, teid, sess) ∈ K.found ∧ sess.get session_val.pdr_id 4 = pdr_id ∧
    (.tc_bundle_map, pdr_id, bundle) ∈ K.found ∧ activeTuple bundle = t

inductive Faithful (b : Build) (K : Findings) : Bytes → Prop
  | decision {teid pdr_id : Nat} {t : Tuple} : b.decision_events = true → K.Resolved teid pdr_id t →
    Faithful b K (decisionBytes t.far_id t.qer_id t.generation pdr_id)
  /-- From the first reading of the clock to the last one, in 64 bits. -/
  | latency {pkt_len t_entry now : Nat} : b.latency_events = true → K.len = some pkt_len →
    K.times.head? = some t_entry → K.times.getLast? = some now →
    Faithful b K (latencyBytes ((now + 2 ^ 64 - t_entry) % 2 ^ 64) pkt_len)
  | buffer {teid pdr_id pkt_len ts_ns : Nat} {t : Tuple} {far : Bytes} : K.Resolved teid pdr_id t →
    (.far_table, t.far_id, far) ∈ K.found → far.get far_val.action 4 = FAR_BUFFER → K.len = some pkt_len →
    K.times.getLast? = some ts_ns → Faithful b K (bufferBytes teid pdr_id t.far_id pkt_len ts_ns)

/-- The event is not of a kind that the packet could not have sent. -/
def Allowed (b : Build) (K : Findings) : Op Ptr → Prop
  | .perf_event_output data => K.Faithful b data
  | _ => True

/-- What is read through a pointer to a value is in the value. -/
def Possible (_ : Findings) : (o : Op Ptr) → Op.Ans o → Prop
  | .lookup m _, r => ∀ p, r = some p → m.datapath = false → ∃ v, p = .value m v
  | .read (.value _ v) off n, r => r = v.get off n
  | _, _ => True

def next (K : Findings) : (o : Op Ptr) → Op.Ans o → Findings
  | .lookup m key, some (.value _ v) => if m.isRule then { K with found := (m, key, v) :: K.found } else K
  | .len, n => { K with len := some n }
  | .ktime_get_ns, t => { K with times := K.times ++ [t] }
  | .perf_event_output _, _ => { K with events := K.events + 1 }
  | .bump .M_TC_FAR_FORWARD, _ => { K with forwards := K.forwards + 1 }
  | .bump .M_TC_FAR_BUFFER, _ => { K with buffers := K.buffers + 1 }
  | _, _ => K

end Findings

/-- A programme of build `b` reports what it found. -/
def reporting (b : Build) : Discipline (BpfOps Ptr) Findings := ⟨Findings.Allowed b, Findings.Possible, Findings.next⟩

/-- How many events a packet that is forwarded sends. -/
def Build.perForward (b : Build) : Nat := (if b.decision_events then 1 else 0) + if b.latency_events then 1 else 0

/-- A packet that is forwarded or buffered has sent its events, and no other has sent one. -/
def Tallied (b : Build) (_ : Int) (K : Findings) : Prop := K.events = K.forwards * b.perForward + K.buffers

/-- What the operations `l` of a packet have found. -/
def findings (l : Log (BpfOps Ptr)) : Findings := l.foldl (fun K e => K.next e.1 e.2) .start

/-- Every event of the packet is faithful to what the packet had found by then. -/
def AllFaithful (b : Build) (l : Log (BpfOps Ptr)) : Prop :=
  AtEach (fun pre e => ∀ data, e.1 = .perf_event_output data → (findings pre).Faithful b data) l

/-- The build that a hook's programme comes from, as far as events are concerned. -/
def Hook.build : Hook → Build
  | xdp => ⟨false, false, false⟩
  | tc b => b

/-- The packet with the operations `l` reports what it found and, once it has its verdict, no more
and no less than it has to. -/
def Packet.Reports (p : Packet) (l : Log (BpfOps Ptr)) : Prop :=
  AllFaithful p.hook.build l ∧ ∀ v, p.prog = .ret v → Tallied p.hook.build v (findings l)

end UPF
