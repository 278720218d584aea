import Majordomo.Proofs.Client.Shutdown
import Majordomo.Proofs.Config.Expiry
import Majordomo.Proofs.Mediator.Horizon
import Majordomo.Proofs.Worker.Runs

/-! # What is reported

A broker, a client session and a worker report what goes wrong to one monitor, and what cannot be
dealt with where it arises may stop the whole application. Whatever their peers do, all that is
reported can be dealt with: nothing that a peer says, and no connection that fails or goes silent,
stops the application.
-/
namespace Majordomo

namespace Monitor
variable {m m' m'' : Monitor} {f : Fault}

/-- Some faults are reported, and each of them is dealt with where it arises. -/
def Reports (m m' : Monitor) : Prop :=
  ∃ faults : List Fault, (∀ f ∈ faults, f.isRecoverable = true) ∧
    m' = faults.foldl (fun m f => m.report f) m

theorem Reports.refl (m : Monitor) : Reports m m := ⟨[],by simp,rfl⟩

theorem reports_of_eq (h : m' = m) : Reports m m' := h ▸ .refl m

theorem reports_report (hf : f.isRecoverable = true) (m : Monitor) : Reports m (m.report f) :=
  ⟨[f],by simp [hf],rfl⟩

theorem Reports.trans (h : Reports m m') (h' : Reports m' m'') : Reports m m'' := by
  obtain ⟨fs,hfs,rfl⟩ := h
  obtain ⟨gs,hgs,rfl⟩ := h'
  refine ⟨fs ++ gs,fun f hf => ?_,List.foldl_append.symm⟩
  exact (List.mem_append.mp hf).elim (hfs f) (hgs f)

theorem cancelled_report (hf : f.isRecoverable = true) (m : Monitor) :
    (m.report f).cancelled = m.cancelled := by
  simp [report, hf]

/-- Under no policy do such reports stop the application. -/
theorem Reports.cancelled (h : Reports m m') : m'.cancelled = m.cancelled := by
  obtain ⟨fs,hfs,rfl⟩ := h
  induction fs generalizing m with
  | nil => rfl
  | cons f fs ih =>
    have hf : f.isRecoverable = true := hfs f (List.mem_cons_self ..)
    rw [List.foldl_cons, ih fun g hg => hfs g (List.mem_cons_of_mem _ hg)]
    exact cancelled_report hf m

/-- What is reported in a run is reported in its acts. -/
theorem reports_foldl {σ α : Type} {monitor : σ → Monitor} {apply : σ → α → σ} {P : σ → Prop}
    {q : α → Prop} (hP : ∀ s a, P s → P (apply s a))
    (h : ∀ s a, P s → q a → Reports (monitor s) (monitor (apply s a))) {s : σ} (hs : P s)
    {acts : List α} (hq : ∀ a ∈ acts, q a) :
    Reports (monitor s) (monitor (acts.foldl apply s)) := by
  induction acts generalizing s with
  | nil => exact .refl _
  | cons a acts ih =>
    have hhead := h s a hs (hq a (List.mem_cons_self ..))
    exact hhead.trans (ih (hP s a hs) fun b hb => hq b (List.mem_cons_of_mem _ hb))

end Monitor

open Monitor (Reports)

/-! ## The broker -/

namespace Broker
variable {f : Fault}

theorem Mediator.recoverable_of_command {m : Mediator} {sender : Frame} {c : Wire.WorkerCommand}
    {now : Nat} (h : (m.command sender c now).2 = some f) : f.isRecoverable = true := by
  cases c with
  | ready | disconnect | unknown => cases h
  | reply | heartbeat =>
    unfold command at h
    dsimp only at h
    split at h <;> cases h
    rfl
  | shutdown =>
    unfold command at h
    dsimp only at h
    split at h <;> cases h

/-- A message is turned away only because it breaks the protocol. -/
theorem Mediator.recoverable_of_handle {m : Mediator} {sender : Frame} {frames : Message}
    {now : Nat} (h : (m.handle sender frames now).2 = some f) : f.isRecoverable = true := by
  unfold handle at h
  split at h
  · cases h
    rfl
  · cases h
  · exact recoverable_of_command h

namespace Server

inductive Act
  /-- It takes a message that waits, or stops if it has been asked to. -/
  | round (now : Nat)
  /-- An interval goes by without a message. -/
  | idle (now : Nat)
  /-- Peers connect, send or go away. -/
  | peers (change : Router → Router)
  | shutdown

def apply (s : Server) : Act → Server
  | .round now => (s.round now).getD s
  | .idle now => s.upkeep now
  | .peers change => s.onRouter change
  | .shutdown => s.shutdown

def run (s : Server) (acts : List Act) : Server := acts.foldl apply s

theorem reports_take (sender : Frame) (frames : Message) (now : Nat) (s : Server) :
    Reports s.monitor (s.take sender frames now).monitor := by
  unfold take
  split
  · exact .refl _
  · rename_i m f h
    have hf : f.isRecoverable = true := Mediator.recoverable_of_handle (congrArg Prod.snd h)
    exact Monitor.reports_report hf s.monitor

theorem reports_round {s s' : Server} {now : Nat} (h : s.round now = some s') :
    Reports s.monitor s'.monitor := by
  unfold round at h
  split at h
  · cases h
  · split at h
    · cases h
      exact .refl _
    · split at h
      · cases h
      · cases h
        exact reports_take ..

theorem reports_apply (s : Server) {a : Act} (ha : a ≠ .shutdown) :
    Reports s.monitor (s.apply a).monitor := by
  cases a with
  | round now =>
    cases h : s.round now with
    | none => simpa [apply, h] using Reports.refl s.monitor
    | some s' => simpa [apply, h] using reports_round h
  | idle | peers => exact .refl _
  | shutdown => contradiction

theorem reports_run (s : Server) {acts : List Act} (h : .shutdown ∉ acts) :
    Reports s.monitor (s.run acts).monitor :=
  Monitor.reports_foldl (P := fun _ => True) (q := (· ≠ .shutdown)) (fun _ _ _ => trivial)
    (fun s _ _ ha => s.reports_apply ha) trivial fun _ hm ha => h (ha ▸ hm)

end Server
end Broker

/-! ## A client session -/

namespace Client

/-- An answer that is not one breaks the protocol, or it turns the session away. -/
theorem Acceptance.fault_of_ofFrames {frames : Message} {f : Fault}
    (h : ofFrames frames = .error f) :
    (∃ v, f = .violation v) ∨ ∃ reason, f = .rejected reason := by
  unfold ofFrames at h
  split at h
  · cases h
    exact .inl ⟨_,rfl⟩
  · split at h
    · cases h
      exact .inr ⟨_,rfl⟩
    · split at h
      · -- a text that is no JSON has become a violation: as it came it could stop the application
        cases h
        exact .inl ⟨_,rfl⟩
      · split at h <;> cases h
        exact .inr ⟨_,rfl⟩

/-- Why a sender that waits for the session manager gives up upon what it hears. -/
theorem fault_of_refusal? {n n' : Network} {id : Nat} {r : Received} {f : Fault}
    (hr : n.receive id = some (r,n')) (hf : refusal? r = some f) :
    (∃ v, f = .violation v) ∨ (∃ reason, f = .rejected reason) ∨
      (∃ reason, f = .transport reason) ∨ f = .interrupted := by
  cases r with
  | message frames =>
    simp only [refusal?] at hf
    split at hf
    · rename_i g hg
      cases hf
      exact (Acceptance.fault_of_ofFrames hg).imp_right .inl
    · cases hf
  | failed g =>
    cases hf
    rcases Network.receive_cases hr with ⟨_,a,_,_,_,_,he⟩ | ⟨he,_⟩
    · cases a <;> cases he
      exact .inr (.inr (.inl ⟨_,rfl⟩))
    · cases he
  | ended =>
    cases hf
    exact .inr (.inr (.inr rfl))

theorem recoverable_of_refusal? {n n' : Network} {id : Nat} {r : Received} {f : Fault}
    (hr : n.receive id = some (r,n')) (hf : refusal? r = some f) : f.isRecoverable = true := by
  rcases fault_of_refusal? hr hf with ⟨_,rfl⟩ | ⟨_,rfl⟩ | ⟨_,rfl⟩ | rfl <;> rfl

namespace State
variable {s s' : State}

theorem reports_heed {f : Fault} (hf : f.isRecoverable = true) (m : Monitor) :
    Reports m (heed f m) := by
  unfold heed
  split
  · exact .refl m
  · exact Monitor.reports_report hf m

theorem monitor_trySend (o : Outbound) (s : State) : (s.trySend o).2.monitor = s.monitor := by
  have hb : s.requestSend.monitor = s.monitor := (congrArg State.monitor (body_requestSend s) :)
  rcases s.trySend_cases o with ⟨_,h⟩ | ⟨_,_,_,h⟩ | ⟨_,h⟩ <;> rw [h]
  · exact hb
  · exact hb

theorem monitor_send (ticket : Nat) (o : Outbound) (s : State) :
    (s.send ticket o).2.monitor = s.monitor := by
  rw [← monitor_trySend o s]
  unfold send
  split
  · rename_i h
    rw [h]
  · rfl

end State

theorem Turn.reports {s t : State} {e e' : Episode} (h : Turn s e t e') :
    Reports s.monitor t.monitor := by
  cases h with
  | refuse => exact State.reports_heed (f := .refused s.settings.server) rfl s.monitor
  | timeOut =>
    have hf : (Fault.handshakeTimeout s.settings.server s.settings.timeout).isRecoverable = true :=
      rfl
    exact State.reports_heed hf s.monitor
  | @refuseOwn _ _ _ _ _ _ address =>
    exact State.reports_heed (f := .refused address) rfl s.monitor
  | reject _ _ hr hf => exact State.reports_heed (recoverable_of_refusal? hr hf) s.monitor
  | expire => exact Monitor.reports_report rfl s.monitor
  | _ => exact .refl _

namespace State
variable {s s' : State}

theorem Step.reports {task : Task} (h : Step s task s') : Reports s.monitor s'.monitor := by
  cases h with
  | turn _ _ ht =>
    rw [monitor_settleEpisode]
    exact ht.reports
  | revive => exact Monitor.reports_of_eq (monitor_execute _)
  | enqueue => exact .refl _

theorem reports_apply (hs : s.Sane) {a : Act} (ha : a ≠ .shutdown) :
    Reports s.monitor (s.apply a).monitor := by
  cases a with
  | move task =>
    cases h : s.move task with
    | none => simpa [apply, h] using Reports.refl s.monitor
    | some s' => simpa [apply, h] using (step_move hs h).reports
  | overlook =>
    rcases step_overlook hs with h | h
    · exact Monitor.reports_of_eq (congrArg State.monitor h)
    · exact h.reports
  | send | sendIgnoringReply | disconnect => exact Monitor.reports_of_eq (monitor_send ..)
  | attempt => exact Monitor.reports_of_eq (monitor_trySend ..)
  | close => exact Monitor.reports_of_eq s.monitor_close
  | listen | network | tick => exact .refl _
  | shutdown => contradiction

theorem reports_run (hs : s.Sane) {acts : List Act} (h : .shutdown ∉ acts) :
    Reports s.monitor (s.run acts).monitor :=
  Monitor.reports_foldl (P := Sane) (q := (· ≠ .shutdown)) (fun _ a hs => sane_apply hs a)
    (fun _ _ hs ha => reports_apply hs ha) hs fun _ hm ha => h (ha ▸ hm)

/-- An answer that cannot be read is reported, and the application goes on. -/
example : ((start .sample .accept { policy := .shutdown } none).run
    [.move .sender, .network (.offer 0 (.message [])), .move .sender]).monitor =
      { policy := .shutdown, reported := 1 } := by
  decide +kernel

end State
end Client

/-! ## A worker -/

namespace Worker

/-- What the handler fails with is dealt with where it arises. -/
def Settings.Recovers (c : Settings) : Prop :=
  ∀ (call : Nat) (client : Frame) (body : Message) (f : Fault),
    (c.handler call client body).result = .error f → f.isRecoverable = true

def Stage.Recovers (t : Stage) : Prop :=
  ∀ (id : Nat) (v : Vigil) (e : Envelope) (f : Fault) (done : Nat),
    t = .handling id v e (.error f) done → f.isRecoverable = true

def Recovers (es : List Entry) : Prop := ∀ f, .reported f ∈ es → f.isRecoverable = true

theorem Recovers.cons {e : Entry} {es : List Entry} (h : Recovers es)
    (he : ∀ f, e = .reported f → f.isRecoverable = true) : Recovers (e :: es) := by
  intro f hf
  rcases List.mem_cons.mp hf with hf | hf
  · exact he f hf.symm
  · exact h f hf

theorem RoundEnd.recovers {c : Settings} {now id : Nat} {v : Vigil} {es : List Entry} {t : Stage}
    (h : RoundEnd c now id v es t) : Recovers es ∧ t.Recovers := by
  cases h with
  | rest | beat => simp [Recovers, Stage.Recovers]
  | sever => simp [Recovers, Stage.Recovers, Fault.isRecoverable]

/-- In no move does a worker report what could stop the application. -/
theorem Turn.recovers {s : State} {es : List Entry} {t : Stage} (h : Turn s es t)
    (hc : s.settings.Recovers) (hs : s.stage.Recovers) : Recovers es ∧ t.Recovers := by
  cases h with
  | notify _ _ _ hr | hear _ _ _ _ hr | reply _ _ hr =>
    exact ⟨hr.recovers.1.cons (by simp),hr.recovers.2⟩
  | pass _ _ _ _ hr => exact hr.recovers
  | fail hstage _ hr =>
    refine ⟨hr.recovers.1.cons fun f hf => ?_,hr.recovers.2⟩
    cases hf
    exact hs _ _ _ _ _ hstage
  | call =>
    refine ⟨by simp [Recovers],fun _ _ _ f _ ht => ?_⟩
    obtain ⟨_,_,_,hresult,_⟩ := Stage.handling.inj ht
    exact hc _ _ _ f hresult
  | refuse => simp [Recovers, Stage.Recovers, Fault.refused, Fault.isRecoverable]
  | sever _ hf => simp [Recovers, Stage.Recovers, hf]
  | _ => simp [Recovers, Stage.Recovers]

namespace State
variable {s s' : State}

/-- Nothing that could stop the application has been reported or is about to be. -/
structure Mild (s : State) : Prop where
  settings : s.settings.Recovers
  stage : s.stage.Recovers
  journal : Recovers (s.journal.map Prod.snd)

theorem mild_start {c : Settings} (hc : c.Recovers) (n : Network) (monitor : Monitor) :
    (start c n monitor).Mild := by
  refine ⟨hc,fun _ _ _ _ _ ht => ?_,fun f hf => ?_⟩
  · cases ht
  · cases hf

theorem Effect.mild {a : Act} (h : Effect s a s') (hs : s.Mild) : s'.Mild := by
  cases h with
  | turn hadds ht =>
    obtain ⟨hes,hstage⟩ := ht.recovers hs.settings hs.stage
    refine ⟨hadds.settings ▸ hs.settings,hstage,fun f hf => ?_⟩
    rw [hadds.journal, List.map_append, List.map_map] at hf
    rcases List.mem_append.mp hf with hf | hf
    · exact hs.journal f hf
    · exact hes f (by simpa [Function.comp_def] using hf)
  | resume =>
    refine ⟨hs.settings,fun _ _ _ _ _ ht => ?_,hs.journal⟩
    cases ht
  | pass hb => exact ⟨hb.settings ▸ hs.settings,hb.stage ▸ hs.stage,hb.journal ▸ hs.journal⟩

theorem Effect.reports {a : Act} (h : Effect s a s') (hs : s.Mild) (ha : a ≠ .shutdown) :
    Reports s.monitor s'.monitor := by
  cases h with
  | @turn _ es _ hadds ht =>
    refine ⟨es.filterMap Entry.reported?,fun f hf => ?_,hadds.monitor⟩
    obtain ⟨e,he,hf⟩ := List.mem_filterMap.mp hf
    exact (ht.recovers hs.settings hs.stage).1 f (Entry.reported?_eq_some.mp hf ▸ he)
  | resume => exact .refl _
  | pass hb => exact Monitor.reports_of_eq (hb.monitor.trans (if_neg ha))

theorem mild_run (hs : s.Mild) (acts : List Act) : (s.run acts).Mild :=
  run_invariant (fun s a hs => (effect_apply s a).mild hs) hs acts

theorem reports_run (hs : s.Mild) {acts : List Act} (h : .shutdown ∉ acts) :
    Reports s.monitor (s.run acts).monitor :=
  Monitor.reports_foldl (P := Mild) (q := (· ≠ .shutdown))
    (fun s a hs => (effect_apply s a).mild hs) (fun s a hs ha => (effect_apply s a).reports hs ha)
    hs fun _ hm ha => h (ha ▸ hm)

end State
end Worker

/-- Whatever peers say and however connections fail, all that a broker, a client session or a
worker reports can be dealt with where it arises, and the application goes on unless it stops
itself. The worker's handler has to fail in no other way either. A broker comes to a standstill in
one case alone: a message renews a worker, and its lifetime reaches beyond the end of the clock. -/
theorem peers_cannot_stop_application (interval lifetime start horizon : Nat)
    (ops : List Broker.Mediator.Operation) (sender : Frame) (frames : Message) (now : Nat) :
    let m := (Broker.Mediator.start interval lifetime start).run ops
    (m.handleWithin horizon sender frames now = none ↔
      (∃ peer, m.Renews peer (.handle sender frames now) now) ∧ horizon < now + lifetime) ∧
    (∀ r, m.handleWithin horizon sender frames now = some r →
      r = m.handle sender frames now ∧ ∀ f, r.2 = some f → f.isRecoverable = true) ∧
    (∀ (s : Broker.Server) (acts : List Broker.Server.Act), .shutdown ∉ acts →
      Reports s.monitor (s.run acts).monitor ∧
        (s.run acts).monitor.cancelled = s.monitor.cancelled) ∧
    (∀ (c : Client.Settings) (m : Mode) (monitor : Monitor) (listener : Option Nat)
      (acts : List Client.Act),
      let s := (Client.State.start c m monitor listener).run acts
      (∀ a, a ≠ .shutdown → Reports s.monitor (s.apply a).monitor) ∧
        (.shutdown ∉ acts → Reports monitor s.monitor ∧
          s.monitor.cancelled = monitor.cancelled)) ∧
    ∀ (c : Worker.Settings) (n : Network) (monitor : Monitor) (acts : List Worker.Act),
      c.Recovers →
      let s := (Worker.State.start c n monitor).run acts
      (∀ a, a ≠ .shutdown → Reports s.monitor (s.apply a).monitor) ∧
        (∀ t f, (t,.reported f) ∈ s.journal → f.isRecoverable = true) ∧
        (.shutdown ∉ acts → Reports monitor s.monitor ∧
          s.monitor.cancelled = monitor.cancelled) := by
  intro m
  have hm : m.Consistent := (Broker.Mediator.consistent_start interval lifetime start).run ops
  have hlife : m.lifetime = lifetime := Broker.Mediator.lifetime_run _ ops
  have htells := hm.tells_handle horizon now sender frames
  rw [hlife] at htells
  refine ⟨htells.eq_none_iff,fun r hr => ?_,fun s acts h => ?_,
    fun c m monitor listener acts => ?_,fun c n monitor acts hc => ?_⟩
  · obtain rfl := htells.eq_of_some hr
    exact ⟨rfl,fun f => m.recoverable_of_handle⟩
  · have hr := s.reports_run h
    exact ⟨hr,hr.cancelled⟩
  · intro s
    have hm : (Client.State.start c m monitor listener).monitor = monitor :=
      Client.State.monitor_execute _
    have hstart := Client.State.sound_start c m monitor listener
    have hs : s.Sound := Client.State.sound_run hstart acts
    refine ⟨fun a ha => Client.State.reports_apply hs.sane ha,fun h => ?_⟩
    have hr : Reports monitor s.monitor := hm ▸ Client.State.reports_run hstart.sane h
    exact ⟨hr,hr.cancelled⟩
  · intro s
    have hstart := Worker.State.mild_start hc n monitor
    have hs : s.Mild := Worker.State.mild_run hstart acts
    refine ⟨fun a ha => (Worker.State.effect_apply s a).reports hs ha,fun t f hf => ?_,fun h => ?_⟩
    · exact hs.journal f (List.mem_map.mpr ⟨_,hf,rfl⟩)
    · have hr : Reports monitor s.monitor := Worker.State.reports_run hstart h
      exact ⟨hr,hr.cancelled⟩

/-- The environment may set a lifetime that is a duration, yet reaches beyond the end of a clock
that counts its seconds in 63 bits. Then the first READY brings the broker to a standstill. -/
theorem first_worker_stops_broker :
    let c := (Config.ofEnvironment (.heartbeat 18446744073709551615 501)).broker
    ∃ s, Broker.Server.start c .shutdown = some s ∧ ∀ now,
      s.mediator.handleWithin (2 ^ 63 * 1000) (.ofText "w1") (Wire.ready "echo") now = none := by
  intro c
  have hx : c.expiry? = some 9241818780928485359115 := by decide +kernel
  let m := Broker.Mediator.start c.interval 9241818780928485359115 0
  refine ⟨_,by rw [Broker.Server.start, hx, Option.map_some],fun now => ?_⟩
  have hm : m.Consistent := Broker.Mediator.consistent_start ..
  have hhears : m.hears (.ofText "w1") (.handle (.ofText "w1") (Wire.ready "echo") now) = true := by
    change m.hears (.ofText "w1") (.handle (.ofText "w1") (Wire.ready "echo") 0) = true
    decide +kernel
  have hlate : 2 ^ 63 * 1000 < now + m.lifetime :=
    Nat.lt_of_lt_of_le (by decide) (Nat.le_add_left m.lifetime now)
  exact (hm.tells_handle _ now _ _).eq_none_iff.mpr ⟨⟨_,rfl,.inl hhears⟩,hlate⟩

end Majordomo
