import Majordomo.Proofs.Mediator.Tenure
import Majordomo.Proofs.Wire.Agreement
import Majordomo.Proofs.Worker.Signs

/-! # A worker that gives signs of life, and its broker

One connection of a worker leads to the broker, which takes what is written there before time goes
on. What the worker promises of its signs of life is then what the broker asks of a worker, if it
grants two periods or more: it does not take the worker for dead.
-/
namespace Majordomo
open Broker (Mediator)

section
variable {c : Wire.Command} (hr : c ≠ .ready) (hd : c ≠ .disconnect) (rest : Message)
include hr hd

/-- What is neither READY nor DISCONNECT is not read as one. -/
theorem Wire.WorkerCommand.of_ofFrames {x : WorkerCommand}
    (h : WorkerCommand.ofFrames c.frame rest = .ok x) :
    (∀ service, x ≠ .ready service) ∧ x ≠ .disconnect := by
  unfold WorkerCommand.ofFrames at h
  rw [Command.ofFrame?_frame] at h
  cases c with
  | ready | disconnect => contradiction
  | request | heartbeat =>
    cases h
    simp
  | reply | shutdown =>
    dsimp only at h
    split at h
    · cases h
      simp
    · cases h

/-- A worker's message that is neither READY nor DISCONNECT does not register or dismiss it. -/
theorem Broker.Mediator.not_dismisses_workerMessage (peer : Frame) (now : Nat) (m : Mediator) :
    m.dismisses peer (.handle peer (Wire.workerMessage c rest) now) = false ∧
      m.acceptsReady peer (.handle peer (Wire.workerMessage c rest) now) = false := by
  simp only [dismisses, acceptsReady, Operation.from?, if_true, Wire.Inbound.ofFrames_workerMessage,
    reduceCtorEq, decide_false, Bool.false_or]
  cases hx : Wire.WorkerCommand.ofFrames c.frame rest with
  | error v => simp [Except.map, Except.toOption]
  | ok x =>
    obtain ⟨hready,hbye⟩ := Wire.WorkerCommand.of_ofFrames hr hd rest hx
    cases x with
    | ready service => exact absurd rfl (hready service)
    | disconnect => exact absurd rfl hbye
    | _ => simp [Except.map, Except.toOption]

end

/-- What a worker says in the middle of its script does not register or dismiss it. -/
theorem Worker.Output.not_dismisses {o : Output} (h : o.isMiddle = true) (service : String)
    (peer : Frame) (now : Nat) (m : Mediator) :
    m.dismisses peer (.handle peer (o.frames service) now) = false ∧
      m.acceptsReady peer (.handle peer (o.frames service) now) = false := by
  cases o with
  | ready | disconnect => cases h
  | heartbeat | reply e | shutdown n =>
    exact Mediator.not_dismisses_workerMessage (by simp) (by simp) _ peer now m

namespace Exchange

structure Lifeline where
  broker : Mediator
  /-- The broker's time. -/
  now : Nat
  worker : Worker.State
  /-- How many messages on the connection the broker has taken. -/
  taken : Nat := 0

namespace Lifeline

inductive Step
  /-- The worker acts, or its application or its network does. -/
  | act (a : Worker.Act)
  /-- The broker takes the oldest message on the connection. -/
  | take
  | operate (op : Mediator.Operation)
  | pass (ms : Nat)
deriving DecidableEq

variable (n : Nat) (peer : Frame)

/-- The connection is the `n`th of the worker, and the broker knows it as `peer`. -/
def step (l : Lifeline) : Step → Lifeline
  | .act a => { l with worker := l.worker.apply a }
  | .take =>
    match (l.worker.network.takenBy n)[l.taken]? with
    | none => l
    | some frames =>
      { l with
        broker := (l.broker.apply (.handle peer frames l.now)).1
        taken := l.taken + 1 }
  | .operate op => { l with broker := (l.broker.apply op).1 }
  | .pass ms => { l with now := l.now + ms, worker := l.worker.apply (.tick ms) }

/-- The step comes in time: the broker does what it does for others at the present time, and time
passes for both only when the worker waits and the broker has taken what is on the connection. -/
def Allows (l : Lifeline) : Step → Prop
  | .act a => a.isTick = false
  | .take => True
  | .operate op => op.from? peer = none ∧ (op.time? = some l.now ∨ op = .disconnectAll)
  | .pass ms => l.worker.Allows (.tick ms) ∧ l.taken = (l.worker.network.takenBy n).length

instance (l : Lifeline) (x : Step) : Decidable (l.Allows n peer x) :=
  match x with
  | .act _ => inferInstanceAs (Decidable (_ = _))
  | .take => .isTrue trivial
  | .operate _ => inferInstanceAs (Decidable (_ ∧ (_ ∨ _)))
  | .pass _ => inferInstanceAs (Decidable (_ ∧ _))

def run (l : Lifeline) (steps : List Step) : Lifeline := steps.foldl (step n peer) l

def Timely : Lifeline → List Step → Prop
  | _, [] => True
  | l, x :: steps => l.Allows n peer x ∧ (l.step n peer x).Timely steps

instance decidableTimely : (steps : List Step) → (l : Lifeline) → Decidable (l.Timely n peer steps)
  | [], _ => .isTrue trivial
  | x :: steps, l =>
    have := decidableTimely steps (l.step n peer x)
    inferInstanceAs (Decidable (_ ∧ _))

/-! ## What the broker knows of the worker -/

/-- The broker was last told at `heard` that the worker is alive. Of the signs that it has not taken
the last one was given just now. -/
structure Tended (calm : Prop) (heard : Nat) (v : Worker.Vigil) (l : Lifeline) : Prop where
  taken : l.taken ≤ (l.worker.written n).length
  past : heard ≤ l.worker.clock
  recent : l.worker.clock < heard + 2 * l.worker.settings.period
  next : v.heartbeatAt = l.worker.settings.period +
    if ((l.worker.written n).drop l.taken).any (·.isSign) then l.worker.clock else heard
  unheard : l.taken = 0 → l.broker.workers.contains peer.hex = false
  holds : l.broker.workers.contains peer.hex = true →
    l.broker.Holds peer.hex (l.now + (heard + l.broker.lifetime - l.worker.clock))
  /-- As long as the broker has not told everybody to disconnect. -/
  registered : calm → Wire.isInternal l.worker.settings.service = false → 0 < l.taken →
    l.broker.workers.contains peer.hex = true

inductive Course (calm : Prop) (l : Lifeline) : Prop
  | ahead (hn : l.worker.network.links.length ≤ n) (ht : l.taken = 0)
      (hw : l.broker.workers.contains peer.hex = false)
  | tended (heard : Nat) {v : Worker.Vigil} (hs : l.worker.stage.watch? = some (n,v))
      (ht : Tended n peer calm heard v l)
  | gone (hn : n < l.worker.network.links.length)
      (hs : ∀ v, l.worker.stage.watch? ≠ some (n,v))

structure Sound (calm : Prop) (l : Lifeline) : Prop where
  prompt : ∀ k client body, (l.worker.settings.handler k client body).delay = 0
  steady : l.worker.Steady
  told : ∃ st, Worker.State.Told st l.worker
  faithful : l.worker.Faithful
  lifetime : 2 * l.worker.settings.period ≤ l.broker.lifetime
  course : Course n peer calm l

variable {n : Nat} {peer : Frame} {calm : Prop} {l : Lifeline}

/-- What is kept of the worker in each of its acts. -/
theorem Sound.worker (h : Sound n peer calm l) {a : Worker.Act} (ha : l.worker.Allows a) :
    (l.worker.apply a).settings = l.worker.settings ∧ (l.worker.apply a).Steady ∧
      (∃ st, Worker.State.Told st (l.worker.apply a)) ∧ (l.worker.apply a).Faithful := by
  have he := Worker.State.effect_apply l.worker a
  obtain ⟨st,hst⟩ := h.told
  exact ⟨he.settings,he.steady ha h.prompt h.steady,he.told hst,he.faithful h.faithful⟩

/-- The worker goes on with the connection. -/
theorem Tended.act {heard : Nat} {v v' : Worker.Vigil} {w : Worker.State}
    {outs : List Worker.Output} (h : Tended n peer calm heard v l)
    (hc : w.settings = l.worker.settings) (hclock : w.clock = l.worker.clock)
    (hw : w.written n = l.worker.written n ++ outs)
    (hb : v'.heartbeatAt = if outs.any (·.isSign) then
      l.worker.clock + l.worker.settings.period else v.heartbeatAt) :
    Tended n peer calm heard v' { l with worker := w } := by
  have hpending : (w.written n).drop l.taken = (l.worker.written n).drop l.taken ++ outs := by
    rw [hw, List.drop_append_of_le_length h.taken]
  refine ⟨?_,?_,?_,?_,h.unheard,?_,?_⟩ <;> dsimp only
  · rw [hw, List.length_append]
    exact Nat.le_add_right_of_le h.taken
  · rw [hclock]
    exact h.past
  · rw [hclock, hc]
    exact h.recent
  · rw [hclock, hc, hb, hpending, List.any_append]
    cases ho : outs.any (·.isSign) with
    | true => simp [Nat.add_comm]
    | false => simpa using h.next
  · rw [hclock]
    exact h.holds
  · rw [hc]
    exact h.registered

theorem Course.act (h : Course n peer calm l) (hs : l.worker.Steady) {a : Worker.Act}
    {w : Worker.State} (he : Worker.State.Effect l.worker a w) (ha : a.isTick = false) :
    Course n peer calm { l with worker := w } := by
  have hclock := he.clock_eq ha
  have hlen := he.opened_le
  by_cases hw : ∃ v, w.stage.watch? = some (n,v)
  · obtain ⟨v,hw⟩ := hw
    rcases he.watched hw with ⟨hn,hwritten,hb⟩ | ⟨v₀,outs,hs₀,hwritten,hb⟩
    · -- the connection has been opened just now
      cases h with
      | ahead _ ht hu =>
        have hpos := l.worker.settings.period_pos
        refine .tended l.worker.clock hw ⟨?_,?_,?_,?_,fun _ => hu,?_,?_⟩ <;> dsimp only
        · rw [ht]
          exact Nat.zero_le _
        · rw [hclock]
        · rw [hclock, he.settings]
          omega
        · rw [hclock, he.settings, ite_self, hb, Nat.add_comm]
        · intro hc
          rw [hu] at hc
          cases hc
        · intro _ _ hpos
          omega
      | tended _ hs₀ =>
        have hlt := (hs.vigilant n _ hs₀).1
        omega
      | gone hlt => omega
    · have hlt := (hs.vigilant n _ hs₀).1
      cases h with
      | ahead hn => omega
      | tended _ hs₁ ht =>
        cases hs₀.symm.trans hs₁
        exact .tended _ hw (ht.act he.settings hclock hwritten hb)
      | gone _ hno => exact absurd hs₀ (hno v₀)
  · have hno : ∀ v, w.stage.watch? ≠ some (n,v) := fun v hv => hw ⟨v,hv⟩
    rcases Nat.lt_or_ge n w.network.links.length with hlt | hge
    · exact .gone hlt hno
    · cases h with
      | ahead _ ht hu => exact .ahead hge ht hu
      | tended _ hs₀ =>
        have hlt := (hs.vigilant n _ hs₀).1
        omega
      | gone hlt => omega

theorem Sound.act (h : Sound n peer calm l) {a : Worker.Act} (ha : a.isTick = false) :
    Sound n peer calm (l.step n peer (.act a)) := by
  have hallows : l.worker.Allows a := by
    cases a with
    | tick ms => cases ha
    | _ => trivial
  obtain ⟨hc,hsteady,htold,hfaithful⟩ := h.worker hallows
  refine ⟨hc ▸ h.prompt,hsteady,htold,hfaithful,?_,
    h.course.act h.steady (Worker.State.effect_apply ..) ha⟩
  change 2 * (l.worker.apply a).settings.period ≤ l.broker.lifetime
  rw [hc]
  exact h.lifetime

/-! ## Time passes -/

theorem Course.pass (h : Course n peer calm l) (hs : l.worker.Steady)
    (hl : 2 * l.worker.settings.period ≤ l.broker.lifetime) {ms : Nat}
    (ha : l.worker.Allows (.tick ms)) (ht : (l.worker.written n).length ≤ l.taken) :
    Course n peer calm (l.step n peer (.pass ms)) := by
  cases h with
  | ahead hn ht hw => exact .ahead hn ht hw
  | gone hn hs => exact .gone hn hs
  | @tended heard v hw ht' =>
    have hdue := hs.le_waitUntil ha hw
    obtain ⟨_,x,_,hv⟩ := hs.vigilant n v hw
    obtain ⟨hbeat,_,huntil⟩ := hv
    have hnext := ht'.next
    rw [List.drop_eq_nil_of_le ht, List.any_nil, if_neg (by simp)] at hnext
    refine .tended heard hw
      ⟨ht'.taken,Nat.le_add_right_of_le ht'.past,?_,?_,ht'.unheard,fun hc => ?_,ht'.registered⟩
    · change l.worker.clock + ms < heard + 2 * l.worker.settings.period
      omega
    · change v.heartbeatAt = l.worker.settings.period +
        if ((l.worker.written n).drop l.taken).any (·.isSign) then l.worker.clock + ms else heard
      rwa [List.drop_eq_nil_of_le ht, List.any_nil, if_neg (by simp)]
    · have hholds := ht'.holds hc
      change l.broker.Holds peer.hex
        (l.now + ms + (heard + l.broker.lifetime - (l.worker.clock + ms)))
      have hle : l.worker.clock + ms ≤ heard + l.broker.lifetime := by omega
      rwa [show l.now + ms + (heard + l.broker.lifetime - (l.worker.clock + ms)) =
        l.now + (heard + l.broker.lifetime - l.worker.clock) by omega]

theorem Sound.pass (h : Sound n peer calm l) {ms : Nat} (ha : l.Allows n peer (.pass ms)) :
    Sound n peer calm (l.step n peer (.pass ms)) := by
  obtain ⟨hallows,htaken⟩ := ha
  obtain ⟨hc,hsteady,htold,hfaithful⟩ := h.worker hallows
  refine ⟨h.prompt,hsteady,htold,hfaithful,h.lifetime,h.course.pass h.steady h.lifetime hallows ?_⟩
  rw [htaken, h.faithful n, List.length_map]

/-! ## The broker acts -/

/-- What the broker does at the present time leaves a registered worker its time, if that is not
dismissed. -/
theorem Tended.holds_apply {heard : Nat} {v : Worker.Vigil} (h : Tended n peer calm heard v l)
    (hl : 2 * l.worker.settings.period ≤ l.broker.lifetime) {op : Mediator.Operation}
    (hc : l.broker.workers.contains peer.hex = true) (ht : op.time? = some l.now)
    (hd : l.broker.dismisses peer op = false) :
    (l.broker.apply op).1.Holds peer.hex
      (l.now + (heard + l.broker.lifetime - l.worker.clock)) := by
  have hpast := h.past
  have hrecent := h.recent
  exact (h.holds hc).apply ht (by omega) (by omega) hd

theorem Course.operate (h : Course n peer calm l)
    (hl : 2 * l.worker.settings.period ≤ l.broker.lifetime) {op : Mediator.Operation}
    (ha : l.Allows n peer (.operate op)) (hcalm : calm → op ≠ .disconnectAll) :
    Course n peer calm (l.step n peer (.operate op)) := by
  obtain ⟨hfrom,ht⟩ := ha
  have hnew (hu : l.broker.workers.contains peer.hex = false) :
      (l.broker.apply op).1.workers.contains peer.hex = false :=
    Mediator.contains_apply_of_not_acceptsReady hu (Mediator.not_acceptsReady_of_from? hfrom _)
  cases h with
  | ahead hn ht hw => exact .ahead hn ht (hnew hw)
  | gone hn hs => exact .gone hn hs
  | @tended heard v hs h =>
    by_cases hd : op = .disconnectAll
    · subst hd
      have hgone := Mediator.contains_disconnectAll peer.hex l.broker
      refine .tended heard hs ⟨h.taken,h.past,h.recent,h.next,fun _ => hgone,fun hc => ?_,
        fun hn => absurd rfl (hcalm hn)⟩
      cases hgone.symm.trans hc
    · have hkept (hc : l.broker.workers.contains peer.hex = true) :=
        h.holds_apply hl hc (ht.resolve_right hd) (Mediator.not_dismisses_of_from? hfrom hd _)
      refine .tended heard hs ⟨h.taken,h.past,h.recent,h.next,fun h₀ => hnew (h.unheard h₀),
        fun hc => ?_,fun hn hi hpos => (hkept (h.registered hn hi hpos)).contains⟩
      change (l.broker.apply op).1.Holds peer.hex
        (l.now + (heard + (l.broker.apply op).1.lifetime - l.worker.clock))
      rw [Mediator.lifetime_apply]
      cases hw : l.broker.workers.contains peer.hex with
      | true => exact hkept hw
      | false => cases (hnew hw).symm.trans hc

/-! ## The broker takes what the worker has said -/

def hearing (peer : Frame) (l : Lifeline) (o : Worker.Output) : Mediator.Operation :=
  .handle peer (o.frames l.worker.settings.service) l.now

theorem time?_hearing (peer : Frame) (l : Lifeline) (o : Worker.Output) :
    (hearing peer l o).time? = some l.now := rfl

def taking (peer : Frame) (l : Lifeline) (o : Worker.Output) : Lifeline :=
  { l with broker := (l.broker.apply (hearing peer l o)).1, taken := l.taken + 1 }

section
variable {heard : Nat} {v : Worker.Vigil} {o : Worker.Output}

/-- With a sign of life the broker is told that the worker is alive now. -/
theorem Tended.take (h : Tended n peer calm heard v l)
    (ho : (l.worker.written n)[l.taken]? = some o)
    (hholds : (l.broker.apply (hearing peer l o)).1.workers.contains peer.hex = true →
      (l.broker.apply (hearing peer l o)).1.Holds peer.hex (l.now +
        ((if o.isSign then l.worker.clock else heard) + l.broker.lifetime - l.worker.clock)))
    (hregistered : calm → Wire.isInternal l.worker.settings.service = false →
      (l.broker.apply (hearing peer l o)).1.workers.contains peer.hex = true) :
    Tended n peer calm (if o.isSign then l.worker.clock else heard) v (taking peer l o) := by
  have hpast := h.past
  have hrecent := h.recent
  have hnext := h.next
  have hpos := l.worker.settings.period_pos
  obtain ⟨hlt,hget⟩ := List.getElem?_eq_some_iff.mp ho
  rw [List.drop_eq_getElem_cons hlt, hget, List.any_cons] at hnext
  refine ⟨hlt,?_,?_,?_,nofun,?_,fun hn hi _ => hregistered hn hi⟩ <;> dsimp only [taking]
  · split <;> omega
  · split <;> omega
  · rw [hnext]
    cases o.isSign <;> simp
  · rwa [Mediator.lifetime_apply]

/-- READY registers the worker, unless nobody works for its service. -/
theorem Tended.take_ready (h : Tended n peer calm heard v l) (hl : 0 < l.broker.lifetime)
    (ht : l.taken = 0) (ho : (l.worker.written n)[l.taken]? = some .ready) :
    Tended n peer calm l.worker.clock v (taking peer l .ready) := by
  have hu := h.unheard ht
  have hfrom : (hearing peer l .ready).from? peer =
      some (.worker (.ready l.worker.settings.service)) := by
    simp [hearing, Worker.Output.frames, Mediator.Operation.from?, Wire.Inbound.ofFrames_ready,
      Except.toOption]
  cases hi : Wire.isInternal l.worker.settings.service with
  | true =>
    have hn : l.broker.acceptsReady peer (hearing peer l .ready) = false := by
      simp [Mediator.acceptsReady, hfrom, hi]
    have hgone := Mediator.contains_apply_of_not_acceptsReady hu hn
    refine h.take ho (fun hc => ?_) fun _ he => ?_
    · cases hgone.symm.trans hc
    · cases hi.symm.trans he
  | false =>
    have hh : l.broker.hears peer (hearing peer l .ready) = true := by
      simp [Mediator.hears, hfrom, hu, hi]
    have hholds := Mediator.holds_of_hears hh (time?_hearing peer l .ready) hl
    refine h.take ho (fun _ => ?_) fun _ _ => hholds.contains
    rw [if_pos (by rfl), Nat.add_sub_cancel_left]
    exact hholds

/-- What follows on READY renews a registered worker or leaves it its time. -/
theorem Tended.holds_middle (h : Tended n peer calm heard v l)
    (hl : 2 * l.worker.settings.period ≤ l.broker.lifetime) (hm : o.isMiddle = true)
    (hc : l.broker.workers.contains peer.hex = true) :
    (l.broker.apply (hearing peer l o)).1.Holds peer.hex (l.now +
      ((if o.isSign then l.worker.clock else heard) + l.broker.lifetime - l.worker.clock)) := by
  have hpos := l.worker.settings.period_pos
  have hd := (Worker.Output.not_dismisses hm l.worker.settings.service peer l.now l.broker).1
  cases o with
  | ready | disconnect => cases hm
  | reply | shutdown => exact h.holds_apply hl hc rfl hd
  | heartbeat =>
    have hfrom : (hearing peer l .heartbeat).from? peer = some (.worker .heartbeat) :=
      if_pos rfl
    have hh : l.broker.hears peer (hearing peer l .heartbeat) = true := by
      simpa [Mediator.hears, hfrom] using hc
    rw [if_pos (by rfl), Nat.add_sub_cancel_left]
    exact Mediator.holds_of_hears hh rfl (by omega)

theorem Tended.take_middle (h : Tended n peer calm heard v l)
    (hl : 2 * l.worker.settings.period ≤ l.broker.lifetime) (ht : 0 < l.taken)
    (hm : o.isMiddle = true) (ho : (l.worker.written n)[l.taken]? = some o) :
    Tended n peer calm (if o.isSign then l.worker.clock else heard) v (taking peer l o) := by
  have hn := (Worker.Output.not_dismisses hm l.worker.settings.service peer l.now l.broker).2
  refine h.take ho (fun hc => ?_) fun hcalm hi =>
    (h.holds_middle hl hm (h.registered hcalm hi ht)).contains
  cases hw : l.broker.workers.contains peer.hex with
  | true => exact h.holds_middle hl hm hw
  | false => cases (Mediator.contains_apply_of_not_acceptsReady hw hn).symm.trans hc

end

theorem Course.take (h : Course n peer calm l)
    (hl : 2 * l.worker.settings.period ≤ l.broker.lifetime)
    {st : Worker.Standing} (htold : Worker.State.Told st l.worker) {o : Worker.Output}
    (ho : (l.worker.written n)[l.taken]? = some o) :
    Course n peer calm (taking peer l o) := by
  cases h with
  | ahead hn =>
    rw [htold.written_of_length_le hn] at ho
    cases ho
  | gone hn hs => exact .gone hn hs
  | @tended heard v hs h =>
    have hpos := l.worker.settings.period_pos
    have hlink : l.worker.stage.link? = some n := by
      rw [Worker.Stage.link?_eq_watch?, hs]
      rfl
    obtain ⟨middle,hm,hwritten⟩ := htold.begun hlink
    rcases Nat.eq_zero_or_pos l.taken with ht | ht
    · have hready : o = .ready := by
        rw [hwritten, ht] at ho
        exact (Option.some.inj ho).symm
      subst hready
      exact .tended _ hs (h.take_ready (by omega) ht ho)
    · have hmem : o ∈ middle := by
        obtain ⟨k,hk⟩ := Nat.exists_eq_succ_of_ne_zero (Nat.ne_of_gt ht)
        rw [hwritten, hk] at ho
        exact List.mem_of_getElem? ho
      exact .tended _ hs (h.take_middle hl ht (hm o hmem) ho)

/-! ## Runs -/

theorem Sound.step (h : Sound n peer calm l) {x : Step} (ha : l.Allows n peer x)
    (hcalm : calm → x ≠ .operate .disconnectAll) : Sound n peer calm (l.step n peer x) := by
  cases x with
  | act a => exact h.act ha
  | pass ms => exact h.pass ha
  | operate op =>
    refine ⟨h.prompt,h.steady,h.told,h.faithful,?_,
      h.course.operate h.lifetime ha fun hc e => hcalm hc (e ▸ rfl)⟩
    change 2 * l.worker.settings.period ≤ (l.broker.apply op).1.lifetime
    rw [Mediator.lifetime_apply]
    exact h.lifetime
  | take =>
    simp only [Lifeline.step]
    split
    · exact h
    · rename_i frames hf
      rw [h.faithful n, List.getElem?_map, Option.map_eq_some_iff] at hf
      obtain ⟨o,ho,rfl⟩ := hf
      obtain ⟨st,hst⟩ := h.told
      refine ⟨h.prompt,h.steady,h.told,h.faithful,?_,h.course.take h.lifetime hst ho⟩
      dsimp only
      rw [Mediator.lifetime_apply]
      exact h.lifetime

theorem Sound.run (h : Sound n peer calm l) {steps : List Step} (ha : l.Timely n peer steps)
    (hcalm : calm → .operate .disconnectAll ∉ steps) : Sound n peer calm (l.run n peer steps) := by
  induction steps generalizing l with
  | nil => exact h
  | cons x steps ih =>
    have hx : calm → x ≠ .operate .disconnectAll := fun hc e =>
      hcalm hc (e ▸ List.mem_cons_self)
    exact ih (h.step ha.1 hx) ha.2 fun hc hm => hcalm hc (List.mem_cons_of_mem _ hm)

theorem sound_start {c : Worker.Settings}
    (hd : ∀ k client body, (c.handler k client body).delay = 0) (m : Mode) (monitor : Monitor)
    {broker : Mediator} (hl : 2 * c.period ≤ broker.lifetime)
    (hp : broker.workers.contains peer.hex = false) (calm : Prop) (now n : Nat) :
    Sound n peer calm { broker, now, worker := .start c { mode := m } monitor } where
  prompt := hd
  steady := Worker.State.steady_start c m monitor
  told := Worker.State.told_run c m monitor []
  faithful := Worker.State.faithful_run c m monitor []
  lifetime := hl
  course := .ahead (Nat.zero_le n) rfl hp

/-- While the connection is served, no sweep takes the worker out of the registry. -/
theorem Sound.get?_workers_sweep (h : Sound n peer calm l)
    (hs : l.worker.stage.link? = some n) {entry : Broker.Worker}
    (hw : l.broker.workers.get? peer.hex = some entry) :
    (l.broker.sweep l.now).workers.get? peer.hex = some entry := by
  have hl := h.lifetime
  have hc := (Table.contains_iff ..).mpr ⟨entry,hw⟩
  cases h.course with
  | ahead _ _ hn => cases hn.symm.trans hc
  | @tended heard v _ ht =>
    have hrecent := ht.recent
    rw [Mediator.get?_workers_sweep_of_isLive ((ht.holds hc).isLive (by omega)), hw]
  | gone hn hno =>
    obtain ⟨v,hv⟩ := Worker.Stage.exists_watch? hs
    exact absurd hv (hno v)

theorem Sound.registered (h : Sound n peer calm l) (hs : l.worker.stage.link? = some n)
    (ht : 0 < l.taken) (hi : Wire.isInternal l.worker.settings.service = false) (hcalm : calm) :
    l.broker.workers.contains peer.hex = true := by
  cases h.course with
  | ahead _ h₀ => omega
  | tended _ _ h => exact h.registered hcalm hi ht
  | gone hn hno =>
    obtain ⟨v,hv⟩ := Worker.Stage.exists_watch? hs
    exact absurd hv (hno v)

theorem settings_worker_step (l : Lifeline) (x : Step) :
    (l.step n peer x).worker.settings = l.worker.settings := by
  cases x with
  | act a => exact (Worker.State.effect_apply l.worker a).settings
  | pass ms => exact (Worker.State.effect_apply l.worker (.tick ms)).settings
  | operate op => rfl
  | take =>
    simp only [Lifeline.step]
    split <;> rfl

theorem settings_worker_run (l : Lifeline) (steps : List Step) :
    (l.run n peer steps).worker.settings = l.worker.settings := by
  induction steps generalizing l with
  | nil => rfl
  | cons x steps ih => exact (ih (l.step n peer x)).trans (settings_worker_step l x)

/-- The signs of life of a worker whose handler answers at once come one period apart and more, but
less than two. So a broker that takes what such a worker says before time goes on, and grants it
two periods of silence or more, never sweeps it away while it serves the connection; it is registered
from its READY on, unless nobody works for its service, until the broker says farewell to all. -/
theorem healthy_workers_stay {c : Worker.Settings}
    (hd : ∀ k client body, (c.handler k client body).delay = 0) (m : Mode) (monitor : Monitor) :
    let start := Worker.State.start c { mode := m } monitor
    (∀ acts, start.Timely acts → ∀ id,
      ((start.run acts).signs id).IsChain (Worker.State.Spaced c.period) ∧
        ((start.run acts).stage.link? = some id → ∃ x,
          ((start.run acts).signs id).getLast? = some x ∧
            (start.run acts).clock < x.1 + 2 * c.period)) ∧
    ∀ (broker : Mediator) (lives now n : Nat) (peer : Frame) (steps : List Step),
      broker.lifetime = c.period * lives → 2 ≤ lives →
      broker.workers.contains peer.hex = false →
      Timely n peer { broker, now, worker := start } steps →
      let l := run n peer { broker, now, worker := start } steps
      l.worker.stage.link? = some n →
        (∀ entry, l.broker.workers.get? peer.hex = some entry →
          (l.broker.sweep l.now).workers.get? peer.hex = some entry) ∧
        (0 < l.taken → Wire.isInternal c.service = false → .operate .disconnectAll ∉ steps →
          l.broker.workers.contains peer.hex = true) := by
  intro start
  refine ⟨fun acts ha id => ?_,fun broker lives now n peer steps hl hlives hp ha => ?_⟩
  · have hs := Worker.State.steady_run hd m monitor ha
    have hc : (start.run acts).settings = c := Worker.State.settings_run _ acts
    refine ⟨hc ▸ hs.spaced id,fun hlink => ?_⟩
    obtain ⟨v,hw⟩ := Worker.Stage.exists_watch? hlink
    obtain ⟨_,x,hx,hv⟩ := hs.vigilant id v hw
    exact ⟨x,hx,hc ▸ Nat.lt_of_le_of_lt hv.clock hv.waitUntil⟩
  · intro l hserved
    have hlife : 2 * c.period ≤ broker.lifetime := by
      rw [hl, Nat.mul_comm]
      exact Nat.mul_le_mul_left c.period hlives
    have hsound := (sound_start hd m monitor hlife hp (.operate .disconnectAll ∉ steps) now n).run
      ha id
    have hc : l.worker.settings = c := settings_worker_run _ steps
    refine ⟨fun entry => hsound.get?_workers_sweep hserved,fun ht hi hcalm =>
      hsound.registered hserved ht ?_ hcalm⟩
    rwa [hc]

/-- What the broker says just before the end of a wait makes the worker wait once more, so that the
next sign comes almost two periods after the last one; a sweep just before that finds it alive. -/
theorem healthy_workers_stay_late :
    let steps : List Step := [.act .move, .take, .pass 99,
      .act (.network (.offer 0 (.message Wire.heartbeat))), .act .move, .pass 100,
      .operate (.sweep 206), .act .move, .take]
    let l := run 0 (.ofText "w1")
      { broker := .start 100 200 0, now := 7, worker := .start .sample {} {} } steps
    l.worker.signs 0 = [(0,.ready), (199,.heartbeat)] ∧ l.taken = 2 ∧
      l.broker.workers.contains (Frame.ofText "w1").hex = true := by
  have hd : ∀ k client body,
      (Worker.Settings.sample.handler k client body).delay = 0 := fun _ _ _ => rfl
  obtain ⟨_,hstay⟩ := healthy_workers_stay hd .accept {}
  refine ⟨by decide +kernel,by decide +kernel,?_⟩
  refine (hstay (.start 100 200 0) 2 7 0 _ _ rfl (by decide) rfl ?_ ?_).2 ?_ ?_ ?_ <;>
    decide +kernel

end Lifeline
end Exchange
end Majordomo
