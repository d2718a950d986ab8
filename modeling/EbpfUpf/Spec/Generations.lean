import EbpfUpf.Framework.Versioned
import EbpfUpf.Impl.System
import EbpfUpf.Spec.Rules

/-!
# Generations

What packets found in the bundle of a PDR, and how often `install_session` had
written the bundle by then (`watch`): the generation begins again at 0 each
time.
-/

open Framework

namespace UPF

/-- What the events tell of a PDR's bundle. -/
structure Watch where
  /-- The call that the agent is in. -/
  current : Option Command
  /-- How often `install_session` has written the bundle. -/
  installs : Nat
  /-- What packets found there, oldest first. -/
  sightings : List (Sighting Tuple)

def Command.isInstall : Command → Bool
  | install_session .. => true
  | _ => false

def Watch.step (pdr_id : Nat) (w : Watch) : Event → Watch
  | .call c => { w with current := some c }
  | .done .. | .stop _ => { w with current := none }
  | .sys (.update .tc_bundle_map key _) (.ok _) =>
    if le key = pdr_id ∧ w.current.any Command.isInstall then { w with installs := w.installs + 1 } else w
  | .op _ (.lookup .tc_bundle_map key) (some (.value _ v)) =>
    if key = pdr_id then { w with sightings := w.sightings ++ [⟨w.installs, activeTuple v⟩] } else w
  | _ => w

def watch (pdr_id : Nat) (h : List Event) : Watch := h.foldl (Watch.step pdr_id) ⟨none, 0, []⟩

/-- Among what packets found between two installs, a generation stands for one tuple. -/
def Identified (pdr_id : Nat) (h : List Event) : Prop :=
  ∀ x ∈ (watch pdr_id h).sightings, ∀ y ∈ (watch pdr_id h).sightings,
    x.epoch = y.epoch → x.value.generation = y.value.generation → x.value = y.value

end UPF
