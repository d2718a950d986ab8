import EbpfUpf.Impl.Bpf
import EbpfUpf.Proof.Maps

/-!
# What a programme leaves alone

Whatever a programme does, it stays on its CPU and changes no map that only
the control plane writes (`run_keeps`): the tables other than the shared
buckets are the same after it.
-/

open Framework

namespace UPF

/-- `s'` is on the same CPU as `s`, with the same control-plane maps. -/
structure Keeps (s s' : Machine) : Prop where
  cpu : s'.cpu = s.cpu
  table : ∀ m, m ≠ .qer_state_shared → s'.maps.table m = s.maps.table m

namespace Keeps

theorem refl (s : Machine) : Keeps s s := ⟨rfl, fun _ _ => rfl⟩

theorem trans {s₁ s₂ s₃ : Machine} (h₁ : Keeps s₁ s₂) (h₂ : Keeps s₂ s₃) : Keeps s₁ s₃ :=
  ⟨h₂.cpu.trans h₁.cpu, fun m hm => (h₂.table m hm).trans (h₁.table m hm)⟩

theorem lookup {s s' : Machine} (h : Keeps s s') {m : MapName} (hm : m ≠ .qer_state_shared) (k : Nat) :
    s'.maps.lookup m k = s.maps.lookup m k := Maps.lookup_congr (h.table m hm) k

end Keeps

/-! ## Answers -/

theorem ptr_value {m : MapName} (hm : m.datapath = false) (s : Maps) (k : Nat) :
    s.ptr m k = (s.lookup m k).map (.value m) := by
  cases m with
  | qer_state | qer_state_shared | urr_counters => cases hm
  | _ => rfl

theorem ptr_elem {m : MapName} (hm : m.datapath = true) (s : Maps) (k : Nat) :
    s.ptr m k = none ∨ s.ptr m k = some (.elem m k) := by
  cases m with
  | qer_state | qer_state_shared | urr_counters =>
    simp only [Maps.ptr]
    split <;> simp
  | _ => cases hm

theorem kernel_lookup {m : MapName} (hm : m.datapath = false) (H : Helpers) (s : Machine) (k : Nat) :
    kernel H (.lookup m k) s = some ((s.maps.lookup m k).map (.value m), s) := by
  rw [kernel, ptr_value hm]

theorem kernel_write {m : MapName} (hm : m.datapath = true) (H : Helpers) (s : Machine) (k off n v : Nat) :
    kernel H (.write (.elem m k) off n v) s = some ((), { s with
      maps := s.maps.setElem m k s.cpu ((s.maps.elem m k s.cpu).set off (toLE n v)) }) := by
  simp only [kernel, hm, ite_true]

/-! ## Frames of a run -/

theorem setElem_table {s : Maps} {m m' : MapName} {k cpu : Nat} {v : Bytes} (hd : m.datapath = true)
    (hm : m' ≠ .qer_state_shared) : (s.setElem m k cpu v).table m' = s.table m' := by
  by_cases h : m = .qer_state_shared
  · subst h
    exact Maps.table_put_ne s k v hm
  · have hp : Maps.PerCpu m := by
      cases m <;> simp [MapName.datapath, Maps.PerCpu, MapName.type] at hd h ⊢
    rw [Maps.setElem_percpu hp]
    rfl

theorem kernel_keeps {H : Helpers} {o : Op Ptr} {s s' : Machine} {r : Op.Ans o}
    (h : kernel H o s = some (r, s')) : Keeps s s' := by
  cases o with
  | load off n =>
    simp only [kernel] at h
    split at h <;> cases h
    exact .refl s
  | store off val =>
    simp only [kernel] at h
    split at h <;> cases h
    exact ⟨rfl, fun _ _ => rfl⟩
  | write p off n val =>
    cases p with
    | value m v => cases h
    | elem m key =>
      simp only [kernel] at h
      split at h <;> cases h
      next hd => exact ⟨rfl, fun m' hm => setElem_table hd hm⟩
  | create m key val =>
    simp only [kernel, Maps.create] at h
    split at h
    · next maps e =>
      cases h
      split at e
      · cases e
      · split at e <;> cases e
        exact ⟨rfl, fun _ _ => rfl⟩
    · cases h
      exact .refl s
  | adjust_room d mode flags =>
    simp only [kernel] at h
    split at h <;> cases h <;> exact ⟨rfl, fun _ _ => rfl⟩
  | _ =>
    cases h
    exact ⟨rfl, fun _ _ => rfl⟩

theorem run_keeps {α : Type} {H : Helpers} {p : Bpf Ptr α} {s s' : Machine} {a : α}
    (h : p.run (kernel H) s = some (a, s')) : Keeps s s' :=
  Prog.run_rel _ Keeps.refl Keeps.trans kernel_keeps h

theorem leads_keeps {α : Type} {H : Helpers} {Q : Op Ptr → Prop} {p p' : Bpf Ptr α} {s s' : Machine}
    (h : Prog.Leads (kernel H) Q p s p' s') : Keeps s s' := by
  induction h with
  | refl p s => exact .refl s
  | ask e _ _ ih => exact (kernel_keeps e).trans ih

end UPF
