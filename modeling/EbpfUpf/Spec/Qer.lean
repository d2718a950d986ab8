import EbpfUpf.Framework.TokenBucket
import EbpfUpf.Impl.Tc

/-!
# QERs

What a QER does to the packets of its PDRs: each takes its length from a token
bucket that was refilled for the time since its last use (`refilled`,
`taken`), and is dropped if the tokens are not there. `qerAdmits` is the
decision; a QER that is not there, or has no rate, admits everything.
-/

open Framework

namespace UPF

/-- A packet of `pkt_len` bytes comes to its QER. -/
abbrev admission (b : Build) (qer_id pkt_len : Nat) : Bpf Ptr Bool := upf_qer_admit b qer_id pkt_len

/-- The bucket refilled at `now`, after `elapsed` ns. -/
def refilled (mbr burst elapsed now : Nat) (b : Bucket) : Bucket :=
  if b.last = 0 then ⟨burst, now⟩
  else ⟨min ((b.tokens + refill_bytes elapsed mbr) % 2 ^ 64) burst, now⟩

/-- The bucket that a call decides on, from the bucket it finds. -/
def filled (qv : Bytes) (elapsed : Nat → Nat → Nat) (now : Nat) (b : Bucket) : Bucket :=
  refilled (qv.get qer_val.mbr_ul_bps 8) (qv.get qer_val.burst_bytes 4) (elapsed now b.last) now b

/-- Whether `n` tokens can be taken from the bucket, and what is left. -/
def taken (n : Nat) (b : Bucket) : Bool × Bucket :=
  if n ≤ b.tokens then (true, ⟨b.tokens - n, b.last⟩) else (false, b)

/-- The bytes of a packet, if it is admitted. -/
def amount (r : Bool) (pkt_len : Nat) : Nat := if r then pkt_len else 0

/-- A map with buckets in its elements, the tokens in one word and the time in
the next. -/
structure BucketMap where
  map : MapName
  tokens_bytes : Nat
  /-- What a build takes for the time from the last use to now. -/
  elapsed : Nat → Nat → Nat
  datapath : map.datapath = true
  type : map.type = .PERCPU_ARRAY ∨ map.type = .ARRAY
  fits : tokens_bytes + 16 ≤ map.value_size

namespace BucketMap

/-- The buckets of the default build. -/
def percpu : BucketMap :=
  ⟨.qer_state, qer_bucket_state.tokens_bytes, elapsed_percpu, rfl, .inl rfl, by decide⟩

/-- The buckets with `UPF_QER_SHARED_LOCK`. -/
def shared : BucketMap :=
  ⟨.qer_state_shared, qer_bucket_locked.tokens_bytes, elapsed_shared, rfl, .inr rfl, by decide⟩

/-- The buckets of a build. -/
def of (b : Build) : BucketMap := if b.qer_shared_lock then shared else percpu

variable (e : BucketMap)

/-- The bucket of a QER, as CPU `cpu` sees it. -/
def bucket (qer_id cpu : Nat) (s : Maps) : Bucket :=
  ⟨(s.elem e.map qer_id cpu).get e.tokens_bytes 8, (s.elem e.map qer_id cpu).get (e.tokens_bytes + 8) 8⟩

/-- A packet of `n` bytes at `now`: whether it is admitted, and the bucket left. -/
def admits (qv : Bytes) (qer_id cpu now n : Nat) (s : Maps) : Bool × Bucket :=
  taken n (filled qv e.elapsed now (e.bucket qer_id cpu s))

end BucketMap

/-- Whether the QER lets through a packet of `n` bytes at `now`. -/
def qerAdmits (b : Build) (s : Maps) (qer_id cpu now n : Nat) : Bool :=
  match s.lookup .qer_table qer_id with
  | none => true
  | some qv => if qv.get qer_val.mbr_ul_bps 8 = 0 then true
    else ((BucketMap.of b).admits qv qer_id cpu now n s).1

end UPF
