import EbpfUpf.Spec.Fate
import EbpfUpf.Spec.Usage

/-!
# What is sent, and what it is charged

`sent` has the frames that a run redirects, as they are when they reach the
redirect. `Metered` says what a packet that is forwarded does to the meters:
its QER's bucket gives up its length, and its URR counts it.
-/

open Framework

namespace UPF

/-- A redirect sends the frame as it is. -/
def sends (f : Bytes) : Op Ptr → Option (Nat × Bytes)
  | .redirect ifindex _ => some (ifindex, f)
  | _ => none

/-- The frames that a run redirects, each with its interface. -/
def sent (H : Helpers) (p : Bpf Ptr Int) (s : Machine) : List (Nat × Bytes) :=
  (p.steps (kernel H) s).filterMap fun x => sends x.2.frame x.1

/-- The QER's bucket as a packet at `now` finds it, refilled. -/
def bucketAt (b : Build) (qv : Bytes) (qer_id cpu now : Nat) (s : Maps) : Bucket :=
  filled qv (BucketMap.of b).elapsed now ((BucketMap.of b).bucket qer_id cpu s)

/-- A packet of `n` bytes at `now` is metered under `rule`, from `s` to `s'`. A
QER without a rate charges nothing. -/
structure Metered (b : Build) (rule : Tuple) (cpu now n : Nat) (s s' : Maps) : Prop where
  charged : ∀ qv, s.lookup .qer_table rule.qer_id = some qv → qv.get qer_val.mbr_ul_bps 8 ≠ 0 →
    (bucketAt b qv rule.qer_id cpu now s).tokens =
      ((BucketMap.of b).bucket rule.qer_id cpu s').tokens + n
  counted : rule.urr_id ≠ 0 → HasRoom s rule.urr_id → Counted rule.urr_id cpu n s s'
  uncounted : rule.urr_id = 0 ∨ ¬ HasRoom s rule.urr_id → Uncounted s s'

/-- What is counted for a packet that is forwarded under URR `urr_id`, where the
redirect returns `ret`. -/
def forwardCounts (urr_id : Nat) (ret : Int) : List Metric :=
  [.M_TC_QER_PASS] ++ urrCounts urr_id ++ [.M_TC_FAR_FORWARD] ++
    if ret ≠ TC_ACT_REDIRECT_X then [.M_TC_REDIRECT_ERR] else []

end UPF
