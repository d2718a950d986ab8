import EbpfUpf.Impl.Processes
import EbpfUpf.Spec.Capture

/-!
# The consistency experiment

`toggle_bundle.py` modifies one bundle again and again while packets come, and
`analyze.py` judges the events that the packets sent. `Toggling` says that the
rounds of the driver are all that the agent does, `TupleOf` what an event may say
of the bundle, and `Misjudged` which events the analysis counts as mismatches.
-/

open Framework

namespace UPF

namespace toggle_bundle

def changes (i : Nat) : Changes :=
  ⟨some (pairs.getD (i % 2) (0, 0)).1, some (pairs.getD (i % 2) (0, 0)).2, none, none⟩

/-- Round `i` as a call of the agent. -/
def command (i : Nat) : Command := .modify_tc_bundle pdr_id (changes i)

end toggle_bundle

/-- What round `i` calls. -/
theorem toggle_bundle.command_call (i : Nat) :
    (toggle_bundle.command i).call = (toggle_bundle.toggle i >>= fun _ => pure ()) := rfl

def Move.command? : Move → Option Command
  | call c => some c
  | _ => none

/-- The agent makes the first `n` rounds, each to its end, and nothing else. -/
structure Toggling (n : Nat) (ms : List Move) : Prop where
  rounds : ms.filterMap Move.command? = (List.range n).map toggle_bundle.command
  whole : ∀ mv ∈ ms, mv ≠ .stop

/-- A programme sent `data`. -/
def Upf.Emitted (S : Upf) (data : Bytes) : Prop := ∃ i r, Event.op i (.perf_event_output data) r ∈ S.hist

/-- No programme sends events that look like decision events. -/
def Upf.DecisionsOnly (S : Upf) : Prop := ∀ p ∈ S.packets, p.hook.build.latency_events = false

/-- Event data of a decision by the PDR that is toggled. -/
def IsDecision (data : Bytes) : Prop := data.length = 16 ∧ data.get 12 4 = toggle_bundle.pdr_id.toNat

namespace analyze

def Tuple.pair (t : Tuple) : Nat × Nat := (t.far_id, t.qer_id)

/-- The pair that is in force in generation `g`, when the tuple was `t₀` before the first round. -/
def pairAt (t₀ : Tuple) (g : Nat) : Nat × Nat :=
  if g = t₀.generation then Tuple.pair t₀ else if (g - t₀.generation) % 2 = 1 then (1, 1) else (3, 3)

/-- The event tells of a tuple that was in force. -/
def TupleOf (t₀ : Tuple) (n : Nat) (e : Event) : Prop :=
  t₀.generation ≤ e.generation ∧ e.generation ≤ t₀.generation + n ∧ e.pair = pairAt t₀ e.generation

/-- The parity of the generation does not go with the pair: the first tuple has the wrong pair, or
the rounds began at an even generation. -/
def Misjudged (t₀ : Tuple) (e : Event) : Bool :=
  if e.generation = t₀.generation then Tuple.pair t₀ ≠ pairOf t₀.generation else t₀.generation % 2 = 0

end analyze

end UPF
