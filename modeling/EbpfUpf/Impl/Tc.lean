import EbpfUpf.Impl.Bpf

/-!
# The TC ingress programme (`bpf/upf_tc.c`)

PDR and FAR enforcement and GTP-U decapsulation. `tc_enforce` is the part of
`upf_tc_ingress` from the session lookup on. The compile-time switches are
the fields of `Build`.
-/

open Framework

namespace UPF

variable {P : Type}

/-- Which of `UPF_QER_SHARED_LOCK`, `UPF_EMIT_DECISION_EVENTS` and
`UPF_EMIT_LATENCY_EVENTS` are defined. -/
structure Build where
  qer_shared_lock : Bool
  decision_events : Bool
  latency_events : Bool
  deriving DecidableEq

/-- The bytes that `elapsed` nanoseconds at `mbr_ul_bps` add to a bucket: at
most a second's worth, the product taken in 64 bits. -/
def refill_bytes (elapsed mbr_ul_bps : Nat) : Nat :=
  let elapsed := if elapsed > 1000000000 then 1000000000 else elapsed
  elapsed * mbr_ul_bps % 2 ^ 64 / 8000000000

/-- The bucket's refill, which both builds of `upf_qer_admit` have, with the
fields' places in `st` and the elapsed time as each has them. -/
def refill_bucket (tokens_bytes last_ns : Nat) (elapsed : Nat → Nat → Nat) (qv st : P) (now : Nat) :
    Bpf P Unit := do
  let last ← read st last_ns 8
  if last = 0 then
    write st tokens_bytes 8 (← read qv qer_val.burst_bytes 4)
    write st last_ns 8 now
  else
    let refill := refill_bytes (elapsed now last) (← read qv qer_val.mbr_ul_bps 8)
    write st tokens_bytes 8 (((← read st tokens_bytes 8) + refill) % 2 ^ 64)
    if (← read st tokens_bytes 8) > (← read qv qer_val.burst_bytes 4) then
      write st tokens_bytes 8 (← read qv qer_val.burst_bytes 4)
    write st last_ns 8 now

/-- The decision at the end of both builds. -/
def take_tokens (tokens_bytes : Nat) (st : P) (pkt_len : Nat) : Bpf P Bool := do
  let tokens ← read st tokens_bytes 8
  if tokens ≥ pkt_len then
    write st tokens_bytes 8 (tokens - pkt_len)
    return true
  return false

/-- The elapsed time with `UPF_QER_SHARED_LOCK`: an arrival out of order
counts as no time at all. -/
def elapsed_shared (now last_ns : Nat) : Nat := if now > last_ns then now - last_ns else 0

/-- The elapsed time without it, a difference of two `__u64`. -/
def elapsed_percpu (now last_ns : Nat) : Nat := (now + 2 ^ 64 - last_ns) % 2 ^ 64

/-- `upf_qer_admit` with `UPF_QER_SHARED_LOCK`: one bucket for all CPUs. The
clock is read before the lock is taken. -/
def upf_qer_admit_shared (qer_id pkt_len : Nat) : Bpf P Bool := do
  match ← lookup .qer_table qer_id with
  | none => return true
  | some qv =>
    if (← read qv qer_val.mbr_ul_bps 8) = 0 then
      return true
    match ← lookup .qer_state_shared qer_id with
    | none => return true
    | some st =>
      let now ← ktime_get_ns
      spin_lock st
      refill_bucket qer_bucket_locked.tokens_bytes qer_bucket_locked.last_ns elapsed_shared qv st now
      let admitted ← take_tokens qer_bucket_locked.tokens_bytes st pkt_len
      spin_unlock st
      return admitted

/-- `upf_qer_admit` without it: a bucket for each CPU. -/
def upf_qer_admit_percpu (qer_id pkt_len : Nat) : Bpf P Bool := do
  match ← lookup .qer_table qer_id with
  | none => return true
  | some qv =>
    if (← read qv qer_val.mbr_ul_bps 8) = 0 then
      return true
    match ← lookup .qer_state qer_id with
    | none => return true
    | some st =>
      let now ← ktime_get_ns
      refill_bucket qer_bucket_state.tokens_bytes qer_bucket_state.last_ns elapsed_percpu qv st now
      take_tokens qer_bucket_state.tokens_bytes st pkt_len

def upf_qer_admit (b : Build) (qer_id pkt_len : Nat) : Bpf P Bool :=
  if b.qer_shared_lock then upf_qer_admit_shared qer_id pkt_len
  else upf_qer_admit_percpu qer_id pkt_len

def upf_urr_update (urr_id pkt_len : Nat) : Bpf P Unit := do
  if urr_id = 0 then
    return
  match ← lookup .urr_counters urr_id with
  | some uv =>
    write uv urr_val.bytes_ul 8 (((← read uv urr_val.bytes_ul 8) + pkt_len) % 2 ^ 64)
    write uv urr_val.pkts_ul 8 (((← read uv urr_val.pkts_ul 8) + 1) % 2 ^ 64)
  | none =>
    create .urr_counters urr_id (toLE 8 pkt_len ++ toLE 8 0 ++ toLE 8 1 ++ toLE 8 0)
  bump .M_TC_URR_UPDATED

/-- The decision event, when it is built in. -/
def emit_decision_event (b : Build) (far_id qer_id generation pdr_id : Nat) : Bpf P Unit := do
  if b.decision_events then
    perf_event_output (toLE 4 far_id ++ toLE 4 qer_id ++ toLE 4 generation ++ toLE 4 pdr_id)

/-- The latency event, when it is built in. -/
def emit_latency_event (b : Build) (pkt_len t_entry : Nat) : Bpf P Unit := do
  if b.latency_events then
    let latency_ns := ((← ktime_get_ns) + 2 ^ 64 - t_entry) % 2 ^ 64
    perf_event_output (toLE 8 latency_ns ++ toLE 4 pkt_len ++ toLE 4 0)

/-- `t_entry`, when latency events are built in. -/
def entry_time (b : Build) : Bpf P Nat :=
  if b.latency_events then ktime_get_ns else return 0

def upf_far_forward (b : Build) (far_id qer_id urr_id pdr_id generation outer_hdr_len t_entry : Nat) :
    Bpf P Int := do
  if (← adjust_room (-outer_hdr_len) BPF_ADJ_ROOM_MAC_X BPF_F_ADJ_ROOM_FIXED_GSO_X) < 0 then
    bump .M_TC_DECAP_ERR
    return TC_ACT_SHOT_X
  match ← lookup .far_table far_id with
  | none =>
    bump .M_TC_DECAP_ERR
    return TC_ACT_SHOT_X
  | some far =>
    let pkt_len ← skb_len
    if !(← upf_qer_admit b qer_id pkt_len) then
      bump .M_TC_QER_DROP
      return TC_ACT_SHOT_X
    bump .M_TC_QER_PASS
    upf_urr_update urr_id pkt_len
    emit_decision_event b far_id qer_id generation pdr_id
    emit_latency_event b pkt_len t_entry
    bump .M_TC_FAR_FORWARD
    let ret ← redirect (← read far far_val.out_ifindex 4) 0
    if ret ≠ TC_ACT_REDIRECT_X then
      bump .M_TC_REDIRECT_ERR
    return ret

def tc_enforce (b : Build) (teid ihl_bytes t_entry : Nat) : Bpf P Int := do
  match ← lookup .teid_session teid with
  | none =>
    bump .M_TC_MISS_FAR
    return TC_ACT_OK_X
  | some sess =>
    match ← lookup .tc_bundle_map (← read sess session_val.pdr_id 4) with
    | none =>
      bump .M_TC_MISS_FAR
      return TC_ACT_OK_X
    | some bundle =>
      let active := (← read bundle tc_bundle.active 4) % 2
      let cur := tc_bundle.slot active
      match ← lookup .far_table (← read bundle (cur + tc_bundle_slot.far_id) 4) with
      | none =>
        bump .M_TC_MISS_FAR
        return TC_ACT_OK_X
      | some far =>
        if (← read far far_val.action 4) = FAR_DROP then
          bump .M_TC_FAR_DROP
          return TC_ACT_SHOT_X
        if (← read far far_val.action 4) = FAR_BUFFER then
          let pdr_id ← read sess session_val.pdr_id 4
          let far_id ← read bundle (cur + tc_bundle_slot.far_id) 4
          let pkt_len ← skb_len
          let ts_ns ← ktime_get_ns
          perf_event_output
            (toLE 4 teid ++ toLE 4 pdr_id ++ toLE 4 far_id ++ toLE 4 pkt_len ++ toLE 8 ts_ns)
          bump .M_TC_FAR_BUFFER
          return TC_ACT_SHOT_X
        let outer_hdr_len := ihl_bytes + udphdr.size + 8
        let far_id ← read bundle (cur + tc_bundle_slot.far_id) 4
        let qer_id ← read bundle (cur + tc_bundle_slot.qer_id) 4
        let urr_id ← read bundle (cur + tc_bundle_slot.urr_id) 4
        let pdr_id ← read sess session_val.pdr_id 4
        let generation ← read bundle (cur + tc_bundle_slot.generation) 4
        upf_far_forward b far_id qer_id urr_id pdr_id generation outer_hdr_len t_entry

def upf_tc_ingress (b : Build) : Bpf P Int := do
  let t_entry ← entry_time b
  let data_end ← data_end
  let eth := 0
  if eth + ethhdr.size > data_end then
    return TC_ACT_OK_X
  if (← load (eth + ethhdr.h_proto) 2) ≠ bpf_htons ETH_P_IP_X then
    return TC_ACT_OK_X
  let ip := eth + ethhdr.size
  if ip + iphdr.size > data_end then
    return TC_ACT_OK_X
  if (← load (ip + iphdr.protocol) 1) ≠ IPPROTO_UDP_X then
    return TC_ACT_OK_X
  let ihl_bytes := (← load (ip + iphdr.ihl) 1) % 16 * 4
  if ihl_bytes < iphdr.size then
    return TC_ACT_OK_X
  let l4 := ip + ihl_bytes
  if l4 + udphdr.size > data_end then
    return TC_ACT_OK_X
  let udp := l4
  if (← load (udp + udphdr.dest) 2) ≠ bpf_htons GTPU_PORT_X then
    return TC_ACT_OK_X
  let gtp := udp + udphdr.size
  if gtp + 8 > data_end then
    return TC_ACT_OK_X
  let msg_type ← load (gtp + 1) 1
  if msg_type ≠ GTPU_GPDU_X then
    return TC_ACT_OK_X
  let teid_be ← load (gtp + 4) 4
  let teid := bpf_ntohl teid_be
  tc_enforce b teid ihl_bytes t_entry

end UPF
