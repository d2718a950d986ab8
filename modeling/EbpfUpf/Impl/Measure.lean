import EbpfUpf.Impl.Agent

/-!
# Rule update timing (`loader/agent.py`)

`measure_rule_update`, which `/ruleupdate` runs on the maps in use. The clock is
left out, and with it the result, which is all times.
-/

open Framework

namespace UPF

def base_teid : Int := 0x10000

def base_pdr : Int := 0x20000

/-- The sessions are installed with the default arguments, and then removed. -/
def measure_rule_update (n_rules : Int) : Agent Unit := do
  (List.range n_rules.toNat).forM fun i => install_session (base_teid + i) (base_pdr + i) 1 1 100 1
  (List.range n_rules.toNat).forM fun i => remove_session (base_teid + i) (base_pdr + i)

end UPF
