import Majordomo.Proofs.Worker.Turn

/-! # Runs of a worker

A run is any sequence of what the worker, its application, its network and the clock do, in any
order. Between two connections a request to stop and the end of a wait may come at once, and then
either may be seen first.
-/
namespace Majordomo.Worker

inductive Act
  | move
  /-- Between two connections the worker goes on before it sees a request to stop. -/
  | persist
  /-- An attempt to connect that hung is taken up again. -/
  | resume
  | tick (ms : Nat)
  | notice (n : Notice)
  | askStop
  | shutdown
  | network (event : Network.Event)
deriving DecidableEq

def Act.isTick : Act → Bool
  | .tick _ => true
  | _ => false

def Settings.sample : Settings :=
  { service := "echo", address := "broker:5555", interval := 100, liveness := 3, delay := 50
    handler := fun _ _ body => { result := .ok body } }

namespace State
variable {s s' : State}

def persist (s : State) : State :=
  match s.stage with
  | .dialling => s.dial
  | .pausing wake => if wake ≤ s.clock then { s with stage := .dialling } else s
  | _ => s

def resume (s : State) : State :=
  match s.stage with
  | .hanging => { s with stage := .dialling }
  | _ => s

def apply (s : State) : Act → State
  | .move => s.move.getD s
  | .persist => s.persist
  | .resume => s.resume
  | .tick ms => { s with clock := s.clock + ms }
  | .notice n => (s.notice n).2
  | .askStop => s.askStop
  | .shutdown => s.shutdown
  | .network event => (s.onNetwork event).2

def run (s : State) (acts : List Act) : State := acts.foldl apply s

@[simp] theorem run_nil (s : State) : s.run [] = s := rfl

@[simp] theorem run_cons (s : State) (a : Act) (acts : List Act) :
    s.run (a :: acts) = (s.apply a).run acts := rfl

/-- What every act keeps, every run keeps. -/
theorem run_invariant {P : State → Prop} (h : ∀ s a, P s → P (s.apply a)) (hs : P s)
    (acts : List Act) : P (s.run acts) := by
  induction acts generalizing s with
  | nil => exact hs
  | cons a acts ih => exact ih (h s a hs)

structure Beside (a : Act) (s s' : State) : Prop where
  settings : s'.settings = s.settings
  clock : s'.clock = match a with
    | .tick ms => s.clock + ms
    | _ => s.clock
  stage : s'.stage = s.stage
  journal : s'.journal = s.journal
  monitor : s'.monitor = if a = .shutdown then s.monitor.shutdown else s.monitor
  stopping : s.isStopping = true → s'.isStopping = true
  opened : s'.network.links.length = s.network.links.length
  taken : ∀ n, s'.network.takenBy n = s.network.takenBy n

theorem Beside.clock_le {a : Act} (h : Beside a s s') : s.clock ≤ s'.clock := by
  rw [h.clock]
  split
  · exact Nat.le_add_right ..
  · exact Nat.le_refl _

inductive Effect (s : State) : Act → State → Prop
  | turn {a : Act} {es : List Entry} {s' : State} (ha : Adds es s s') (ht : Turn s es s'.stage)
      (hm : a = .move ∨ a = .persist) : Effect s a s'
  | resume (hs : s.stage = .hanging) : Effect s .resume { s with stage := .dialling }
  | pass {a : Act} {s' : State} (h : Beside a s s') : Effect s a s'

theorem beside_self {a : Act} (ht : ∀ ms, a ≠ .tick ms) (hs : a ≠ .shutdown) (s : State) :
    Beside a s s := by
  refine ⟨rfl,?_,rfl,rfl,(if_neg hs).symm,fun h => h,rfl,fun _ => rfl⟩
  cases a with
  | tick ms => exact absurd rfl (ht ms)
  | _ => rfl

theorem effect_apply (s : State) (a : Act) : Effect s a (s.apply a) := by
  cases a with
  | move =>
    cases h : s.move with
    | none =>
      have hv : s.apply .move = s := by simp [apply, h]
      rw [hv]
      exact .pass (beside_self (by simp) (by simp) s)
    | some s' =>
      have hv : s.apply .move = s' := by simp [apply, h]
      obtain ⟨es,ha,ht⟩ := turn_move h
      rw [hv]
      exact .turn ha ht (.inl rfl)
  | persist =>
    simp only [apply, persist]
    split
    · rename_i hs
      obtain ⟨es,ha,ht⟩ := dial_adds hs
      exact .turn ha ht (.inr rfl)
    · rename_i wake hs
      split
      · rename_i hw
        exact .turn (adds_stage _ s) (.wake hs hw) (.inr rfl)
      · exact .pass (beside_self (by simp) (by simp) s)
    · exact .pass (beside_self (by simp) (by simp) s)
  | resume =>
    simp only [apply, resume]
    split
    · rename_i hs
      exact .resume hs
    · exact .pass (beside_self (by simp) (by simp) s)
  | tick ms => exact .pass ⟨rfl,rfl,rfl,rfl,rfl,fun h => h,rfl,fun _ => rfl⟩
  | notice n =>
    simp only [apply, notice]
    split
    · exact .pass (beside_self (by simp) (by simp) s)
    · split
      · exact .pass ⟨rfl,rfl,rfl,rfl,rfl,fun h => h,rfl,fun _ => rfl⟩
      · exact .pass (beside_self (by simp) (by simp) s)
  | askStop => exact .pass ⟨rfl,rfl,rfl,rfl,rfl,fun _ => rfl,rfl,fun _ => rfl⟩
  | shutdown =>
    refine .pass ⟨rfl,rfl,rfl,rfl,rfl,fun _ => ?_,rfl,fun _ => rfl⟩
    simp [apply, State.shutdown, isStopping, Monitor.shutdown]
  | network e =>
    exact .pass ⟨rfl,rfl,rfl,rfl,rfl,fun h => h,s.network.links_onEvent_length e,
      s.network.takenBy_onEvent e⟩

theorem Effect.settings {a : Act} (h : Effect s a s') : s'.settings = s.settings := by
  cases h with
  | turn ha => exact ha.settings
  | resume => rfl
  | pass h => exact h.settings

theorem Effect.clock_eq {a : Act} (h : Effect s a s') (ha : a.isTick = false) :
    s'.clock = s.clock := by
  cases h with
  | turn hadds => exact hadds.clock
  | resume => rfl
  | pass hb =>
    rw [hb.clock]
    cases a with
    | tick ms => cases ha
    | _ => rfl

theorem Effect.opened_le {a : Act} (h : Effect s a s') :
    s.network.links.length ≤ s'.network.links.length := by
  cases h with
  | turn hadds =>
    rw [hadds.opened]
    exact Nat.le_add_right ..
  | resume => exact Nat.le_refl _
  | pass hb => exact Nat.le_of_eq hb.opened.symm

theorem settings_run (s : State) (acts : List Act) : (s.run acts).settings = s.settings :=
  run_invariant (P := fun t => t.settings = s.settings)
    (fun t a ht => (effect_apply t a).settings.trans ht) rfl acts

end State
end Majordomo.Worker
