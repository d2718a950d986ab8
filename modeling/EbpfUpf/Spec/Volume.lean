import EbpfUpf.Impl.Jobs
import EbpfUpf.Spec.Gpdu
import EbpfUpf.Spec.Meter

/-!
# Volume

The packets that a run redirects under a URR, as IP packets, and what the
meters should have of them: the lengths of these packets, neither more nor less
(`VolumeMetered`).
-/

open Framework

namespace UPF

/-- The URR of the rules for a frame. -/
def urrOf (s : Maps) (wire : Bytes) : Option Nat := (resolve s (teidOf wire)).map fun r => r.rule.urr_id

/-- The IP packet that is redirected under URR `u`, if the job does that. -/
def Job.redirected (b : Build) (cpu : Nat) (s : Maps) (u : Nat) : Job → Option Bytes
  | packet H wire => if urrOf s wire = some u then
      (sent H (upf_tc_ingress b) (arrival cpu s wire)).head?.map fun x => x.2.drop ethhdr.size
    else none
  | _ => none

/-- The IP packets that a run redirects under URR `u`. -/
def redirected (b : Build) (cpu u : Nat) : Maps → List Job → List Bytes
  | _, [] => []
  | s, job :: jobs => (job.redirected b cpu s u).toList ++
      ((job.step b cpu s).map fun s' => redirected b cpu u s' jobs).getD []

/-- The length of all of them. -/
def volume (packets : List Bytes) : Nat := (packets.map List.length).sum

/-- There is room in `urr_counters` for the URR of a packet that is redirected. -/
def Roomy (b : Build) (cpu : Nat) (s : Maps) (job : Job) : Prop :=
  ∀ u, u ≠ 0 → (job.redirected b cpu s u).isSome → HasRoom s u

/-- The time of a frame's metering. -/
def meteredAt (b : Build) (H : Helpers) : Nat := H.ktime_get_ns (if b.latency_events then 1 else 0) % 2 ^ 64

/-- A frame is redirected under URR `u`, as the IP packet `packet`, and its QER
`qer_id` has the value `qv` and limits the rate. -/
structure Limited (b : Build) (cpu : Nat) (s : Maps) (u : Nat) (H : Helpers) (wire packet qv : Bytes) (qer_id : Nat) :
    Prop where
  redirected : (Job.packet H wire).redirected b cpu s u = some packet
  rule : (resolve s (teidOf wire)).map (fun r => r.rule.qer_id) = some qer_id
  qer : s.lookup .qer_table qer_id = some qv
  limits : qv.get qer_val.mbr_ul_bps 8 ≠ 0

/-- The QER of a packet that is redirected under URR `u` is charged the packet's
length. -/
def ChargesInner (b : Build) (cpu u : Nat) (s : Maps) : Job → Prop
  | .packet H wire => ∀ packet qv qer_id s', Limited b cpu s u H wire packet qv qer_id →
      (Job.packet H wire).step b cpu s = some s' → (bucketAt b qv qer_id cpu (meteredAt b H) s).tokens =
        ((BucketMap.of b).bucket qer_id cpu s').tokens + packet.length
  | _ => True

/-- No packet that is redirected under URR `u` has a QER that limits the rate. -/
def Unlimited (b : Build) (cpu u : Nat) (s : Maps) : Job → Prop
  | .packet H wire => ∀ packet qv qer_id, ¬ Limited b cpu s u H wire packet qv qer_id
  | _ => True

/-- What `read_urr` reports of the bytes of URR `u`. -/
def ReportsBytes (N : Nat) (s : Maps) (u n : Nat) : Prop := ∀ raw, IsDump N s .urr_counters raw →
  ∃ report, read_urr raw u = .ok report ∧ (report.map UrrReport.bytes_ul).getD 0 = n

/-- The meters of URR `u` have the lengths of the packets that the run redirects
under it. -/
def VolumeMetered (N : Nat) (b : Build) (cpu u : Nat) (s : Maps) (jobs : List Job) (s' : Maps) : Prop :=
  ReportsBytes N s' u (volume (redirected b cpu u s jobs)) ∧
    Along (Job.step b cpu) (ChargesInner b cpu u) s jobs

end UPF
