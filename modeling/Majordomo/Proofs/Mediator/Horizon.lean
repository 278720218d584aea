import Majordomo.Proofs.Mediator.Tenure

/-! # Where the clock ends

A worker that is renewed is due when its lifetime has passed. The clock tells no time beyond its
horizon, and a mediator that has to note such a time comes to a standstill. It does so in just the
operations that renew a worker, and nothing that was reached without that depends on the horizon.
-/
namespace Majordomo.Broker.Mediator
variable {m : Mediator} {horizon now : Nat}

/-! ## Operations that may have no result -/

def renewWithin (horizon : Nat) (key : String) (now : Nat) (m : Mediator) : Option Mediator :=
  if m.workers.contains key = true ∧ horizon < now + m.lifetime then none
  else some (m.renew key now)

def wakeForRetryWithin (horizon : Nat) (name : String) (sender : Frame) (now : Nat) (m : Mediator) :
    Option Mediator :=
  if (m.services.get? name).any (·.reply = .awaiting) then
    match m.retryCandidate? name sender with
    | some key => m.renewWithin horizon key now
    | none => some m
  else some m

def requestWithin (horizon : Nat) (sender service : Frame) (body : Message) (now : Nat)
    (m : Mediator) : Option Mediator :=
  let name := service.toText
  if Wire.isInternal name then some (m.answerInternal sender name body)
  else
    ((m.require name).wakeForRetryWithin horizon name sender now).map fun m =>
      (m.updateService name fun s =>
        { s with pending := s.pending ++ [(Envelope.ofBody body).wrap sender] }).dispatch name now

/-- The worker is due at the same time when it is registered and when it is renewed then. -/
def readyWithin (horizon : Nat) (sender : Frame) (service : String) (now : Nat) (m : Mediator) :
    Option Mediator :=
  if m.workers.contains sender.hex then some (m.remove sender.hex)
  else if Wire.isInternal service then some (m.emit sender Wire.disconnect)
  else if horizon < now + m.lifetime then none
  else
    let worker : Worker := { identity := sender, service, expiry := now + m.lifetime }
    ({ m with workers := m.workers.set sender.hex worker }.require service).renewWithin horizon
      sender.hex now

def commandWithin (horizon : Nat) (sender : Frame) (c : Wire.WorkerCommand) (now : Nat)
    (m : Mediator) : Option (Mediator × Option Fault) :=
  match c with
  | .ready service => (m.readyWithin horizon sender service now).map (·,none)
  | .reply e =>
    match m.workers.get? sender.hex with
    | none => some (m.turnAway sender "REPLY")
    | some worker =>
      (((m.forward worker.service e).updateService worker.service fun s =>
        { s with reply := .received }).renewWithin horizon sender.hex now).map (·,none)
  | .heartbeat =>
    if m.workers.contains sender.hex then (m.renewWithin horizon sender.hex now).map (·,none)
    else some (m.turnAway sender "HEARTBEAT")
  | c => some (m.command sender c now)

def handleWithin (horizon : Nat) (sender : Frame) (frames : Message) (now : Nat) (m : Mediator) :
    Option (Mediator × Option Fault) :=
  match Wire.Inbound.ofFrames frames with
  | .error v => some (m,some (.violation v))
  | .ok (.client service body) => (m.requestWithin horizon sender service body now).map (·,none)
  | .ok (.worker c) => m.commandWithin horizon sender c now

/-! ## When they have one -/

/-- The result is `y`, unless a worker is renewed and is due beyond the horizon. -/
def Tells {α : Type} (horizon due : Nat) (renews : Prop) (x : Option α) (y : α) : Prop :=
  x = some y ∧ (renews → due ≤ horizon) ∨ x = none ∧ renews ∧ horizon < due

section
variable {α β : Type} {due : Nat} {renews renews' : Prop} {x : Option α} {y : α}

theorem tells_some (y : α) (h : ¬ renews) : Tells horizon due renews (some y) y :=
  .inl ⟨rfl,fun hr => absurd hr h⟩

theorem Tells.map (h : Tells horizon due renews x y) (f : α → β) :
    Tells horizon due renews (x.map f) (f y) := by
  rcases h with ⟨rfl,h⟩ | ⟨rfl,h⟩
  · exact .inl ⟨rfl,h⟩
  · exact .inr ⟨rfl,h⟩

theorem Tells.congr (h : Tells horizon due renews x y) (hr : renews ↔ renews') :
    Tells horizon due renews' x y := propext hr ▸ h

theorem Tells.eq_none_iff (h : Tells horizon due renews x y) :
    x = none ↔ renews ∧ horizon < due := by
  rcases h with ⟨rfl,h⟩ | ⟨rfl,h⟩
  · simpa using h
  · simpa using h

theorem Tells.eq_of_some (h : Tells horizon due renews x y) {z : α} (hz : x = some z) : z = y := by
  rcases h with ⟨rfl,_⟩ | ⟨rfl,_⟩
  · exact (Option.some.inj hz).symm
  · cases hz

end

theorem tells_renew (key : String) :
    Tells horizon (now + m.lifetime) (m.workers.contains key = true) (m.renewWithin horizon key now)
      (m.renew key now) := by
  unfold renewWithin
  split
  · rename_i h
    exact .inr ⟨rfl,h⟩
  · rename_i h
    exact .inl ⟨rfl,fun hc => Nat.le_of_not_lt fun hlt => h ⟨hc,hlt⟩⟩

/-- A repeated request may wake the longest idle worker of the service, and otherwise its sender. -/
theorem retryCandidate?_eq (name : String) (sender : Frame) (m : Mediator) :
    m.retryCandidate? name sender = (m.service name).idle.head?.or
      (if m.isBound name sender.hex then some sender.hex else none) := by
  rw [retryCandidate?, head?_idle, isBound]
  cases (m.service name).idle.head? with
  | some key => rfl
  | none => cases m.workers.get? sender.hex <;> simp

theorem tells_wakeForRetry (name : String) (sender : Frame) :
    Tells horizon (now + m.lifetime)
      ((m.service name).reply = .awaiting ∧
        ∃ key, m.retryCandidate? name sender = some key ∧ m.workers.contains key = true)
      (m.wakeForRetryWithin horizon name sender now) (m.wakeForRetry name sender now) := by
  unfold wakeForRetryWithin wakeForRetry
  rw [any_awaiting]
  by_cases hr : (m.service name).reply = .awaiting
  · rw [if_pos (by simpa using hr), if_pos (by simpa using hr)]
    cases m.retryCandidate? name sender with
    | some key => exact (tells_renew key).congr (by simp [hr])
    | none => exact tells_some m (by simp)
  · rw [if_neg (by simpa using hr), if_neg (by simpa using hr)]
    exact tells_some m fun h => hr h.1

/-- Whom a repeated request may wake is bound to the service. -/
theorem Consistent.candidate_iff (h : m.Consistent) {name : String} {sender : Frame} :
    (∃ key, m.retryCandidate? name sender = some key ∧ m.workers.contains key = true) ↔
      ∃ peer : Frame, m.isBound name peer.hex = true ∧
        ((m.service name).idle.head? = some peer.hex ∨
          (m.service name).idle = [] ∧ sender = peer) := by
  have hcontains {key : String} (hb : m.isBound name key = true) :
      m.workers.contains key = true := by
    obtain ⟨w,hw,_⟩ := isBound_iff.mp hb
    exact (Table.contains_iff ..).mpr ⟨w,hw⟩
  have hpeer {key : String} (hb : m.isBound name key = true) : ∃ peer : Frame, key = peer.hex := by
    obtain ⟨w,hw,_⟩ := isBound_iff.mp hb
    exact ⟨w.identity,h.keyed key w hw⟩
  rw [retryCandidate?_eq]
  cases hi : (m.service name).idle with
  | cons key keys =>
    have hb : m.isBound name key = true := by
      have hk : key ∈ m.idle.filter (m.isBound name) := by
        rw [← h.queues, hi]
        exact List.mem_cons_self ..
      exact (List.mem_filter.mp hk).2
    obtain ⟨peer,rfl⟩ := hpeer hb
    exact ⟨fun _ => ⟨peer,hb,.inl rfl⟩,fun _ => ⟨peer.hex,rfl,hcontains hb⟩⟩
  | nil =>
    cases hb : m.isBound name sender.hex with
    | true => simp [hb, hcontains hb]
    | false => simp [hb]

variable {sender : Frame} {frames : Message}

theorem Consistent.tells_request (h : m.Consistent) {service : Frame} {body : Message}
    (hf : Wire.Inbound.ofFrames frames = .ok (.client service body)) :
    Tells horizon (now + m.lifetime)
      (∃ peer, m.retries peer (.handle sender frames now) = true)
      (m.requestWithin horizon sender service body now) (m.request sender service body now) := by
  unfold requestWithin request
  dsimp only
  cases hn : Wire.isInternal service.toText with
  | true =>
    rw [if_pos rfl, if_pos rfl]
    -- nobody works for an internal service
    refine tells_some _ fun hretry => ?_
    obtain ⟨peer,hp⟩ := hretry
    have hbound : m.isBound service.toText peer.hex = true := by
      simp only [retries, hf, Bool.and_eq_true] at hp
      exact hp.1.1
    obtain ⟨w,hw,hs⟩ := isBound_iff.mp hbound
    cases hn.symm.trans (h.external _ (hs ▸ h.served _ w hw))
  | false =>
    rw [if_neg Bool.false_ne_true, if_neg Bool.false_ne_true]
    let required := m.require service.toText
    have hlife : required.lifetime = m.lifetime := lifetime_act m (.require service.toText)
    have hwake : Tells horizon (now + required.lifetime) _
        (required.wakeForRetryWithin horizon service.toText sender now) _ :=
      tells_wakeForRetry service.toText sender
    rw [hlife, (h.require hn).candidate_iff] at hwake
    refine (hwake.map _).congr ?_
    simp only [required, isBound_require, service_require, retries, hf, Bool.and_eq_true,
      Bool.or_eq_true, decide_eq_true_eq, List.isEmpty_iff, ← exists_and_left]
    exact exists_congr fun peer => by rw [and_assoc, and_left_comm]

theorem tells_ready {service : String} :
    Tells horizon (now + m.lifetime)
      (m.workers.contains sender.hex = false ∧ Wire.isInternal service = false)
      (m.readyWithin horizon sender service now) (m.ready sender service now) := by
  unfold readyWithin ready
  cases hw : m.workers.contains sender.hex with
  | true => exact tells_some _ (by simp)
  | false =>
    cases hn : Wire.isInternal service with
    | true => exact tells_some _ (by simp)
    | false =>
      simp only [Bool.false_eq_true, if_false]
      by_cases hlt : horizon < now + m.lifetime
      · exact .inr ⟨if_pos hlt,by simp,hlt⟩
      · let enrolled := { m with
          workers := m.workers.set sender.hex ⟨sender,service,now + m.lifetime⟩ }
        have hlife : (enrolled.require service).lifetime = m.lifetime :=
          lifetime_act enrolled (.require service)
        rw [if_neg hlt]
        exact .inl ⟨if_neg fun h => hlt (hlife ▸ h.2),fun _ => Nat.le_of_not_lt hlt⟩

/-- A worker that is heard from is renewed. -/
theorem tells_command {c : Wire.WorkerCommand}
    (hf : Wire.Inbound.ofFrames frames = .ok (.worker c)) :
    Tells horizon (now + m.lifetime) (m.hears sender (.handle sender frames now) = true)
      (m.commandWithin horizon sender c now) (m.command sender c now) := by
  cases c with
  | ready service =>
    refine (tells_ready.congr ?_).map (·,none)
    simp [hears, Operation.from?, hf, Except.toOption]
  | reply e =>
    simp only [commandWithin, command]
    cases hw : m.workers.get? sender.hex with
    | none =>
      exact tells_some _ (by simp [hears, Operation.from?, hf, Except.toOption, Table.contains, hw])
    | some w =>
      let settled := (m.forward w.service e).updateService w.service fun s =>
        { s with reply := .received }
      have hworkers : settled.workers = m.workers := by
        rw [workers_updateService, workers_forward]
      have hlife : settled.lifetime = m.lifetime := lifetime_forward ..
      have hrenew : Tells horizon (now + settled.lifetime) _
          (settled.renewWithin horizon sender.hex now) _ := tells_renew sender.hex
      rw [hworkers, hlife] at hrenew
      refine (hrenew.congr ?_).map (·,none)
      simp [hears, Operation.from?, hf, Except.toOption]
  | heartbeat =>
    simp only [commandWithin, command]
    cases hw : m.workers.contains sender.hex with
    | true =>
      refine ((tells_renew sender.hex).congr ?_).map (·,none)
      simp [hears, Operation.from?, hf, Except.toOption]
    | false => exact tells_some _ (by simp [hears, Operation.from?, hf, Except.toOption, hw])
  | disconnect | shutdown | unknown =>
    exact tells_some _ (by simp [hears, Operation.from?, hf, Except.toOption])

/-- A message has no result if it renews a worker that is then due beyond the horizon, and else it
has that which it has where the clock never ends. -/
theorem Consistent.tells_handle (h : m.Consistent) (horizon now : Nat) (sender : Frame)
    (frames : Message) :
    Tells horizon (now + m.lifetime) (∃ peer, Renews peer m (.handle sender frames now) now)
      (m.handleWithin horizon sender frames now) (m.handle sender frames now) := by
  unfold handleWithin handle
  cases hf : Wire.Inbound.ofFrames frames with
  | error v =>
    exact tells_some _ (by simp [Renews, hears, retries, Operation.from?, hf, Except.toOption])
  | ok inbound =>
    cases inbound with
    | client service body =>
      refine ((h.tells_request hf).congr (exists_congr fun peer => ?_)).map (·,none)
      simp [Renews, hears, Operation.from?, hf, Except.toOption, Operation.time?]
    | worker c =>
      refine (tells_command hf).congr ⟨fun hh => ⟨sender,rfl,.inl hh⟩,?_⟩
      rintro ⟨peer,_,hh | hr⟩
      · by_cases hp : sender = peer
        · exact hp ▸ hh
        · simp [hears, Operation.from?, hp] at hh
      · simp [retries, hf] at hr

end Majordomo.Broker.Mediator
