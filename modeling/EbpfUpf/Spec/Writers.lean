import EbpfUpf.Impl.Writers
import EbpfUpf.Spec.Rules

/-!
# Modifications that are not lost

What two calls of `modify_tc_bundle` on one PDR should come to if they change
different fields (`NoneLost`), and when they do not overlap (`Serially`).
-/

open Framework

namespace UPF

/-- The calls change different fields. -/
structure Changes.Apart (c c' : Changes) : Prop where
  far_id : c.far_id = none ∨ c'.far_id = none
  qer_id : c.qer_id = none ∨ c'.qer_id = none
  urr_id : c.urr_id = none ∨ c'.urr_id = none
  precedence : c.precedence = none ∨ c'.precedence = none

/-- The tuple has what the call gives. -/
structure Tuple.Has (t : Tuple) (c : Changes) : Prop where
  far_id : ∀ v ∈ c.far_id, t.far_id = v
  qer_id : ∀ v ∈ c.qer_id, t.qer_id = v
  urr_id : ∀ v ∈ c.urr_id, t.urr_id = v
  precedence : ∀ v ∈ c.precedence, t.precedence = v

/-- The moves `is` brought both calls to their ends, in `S`, with the generations
`gen`, and no modification is lost. -/
structure NoneLost (s : Maps) (pdr_id : Int) (c : Writer → Changes) (is : List Writer) (S : Writers)
    (gen : Writer → Int) : Prop where
  both : ∃ t, ruleOf S.state pdr_id.toNat = some t ∧ ∀ w, t.Has (c w)
  generations : gen .agent ≠ gen .toggle_bundle
  /-- Once a call is over, no packet finds the tuple from before both. -/
  superseded : ∀ js ks S', is = js ++ ks → exec Writers.step (Writers.start s pdr_id c) js = some S' →
    (∃ w g, S'.prog w = .ret (.ok g)) → ruleOf S'.state pdr_id.toNat ≠ ruleOf s pdr_id.toNat

/-- One call makes its lookup and its two updates before the other makes its own. -/
def Serially (is : List Writer) : Prop := ∃ w : Writer, is = List.replicate 3 w ++ List.replicate 3 w.other

end UPF
