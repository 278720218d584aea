import Majordomo.Proofs.Client.Episodes
import Majordomo.Proofs.Client.Waiting

/-! # How a handshake ends

A session that has greeted the session manager waits until it hears something over the connection
or the watchdog expires. Then it is connected, or connecting has failed and everything the episode
had is given up, or it tries to reach an address of its own and hears no more.
-/
namespace Majordomo.Client

/-! ## What an answer says -/

namespace Acceptance
variable {frames : Message} {server : String} {x : Acceptance}

/-- The message is a reply, its payload accepts the session, and `x` is what it says. -/
structure Answers (frames : Message) (x : Acceptance) : Prop where
  reply : ∃ r, Wire.ClientReply.ofFrames frames = .ok r ∧ r.payload = x.payload
  notStop : x.payload ≠ SessionMessage.stopPayload
  read : SessionMessage.ofJson x.payload = .ok x.reply
  notRejection : x.reply.requestType ∉ SessionMessage.rejections

theorem ofFrames_eq_ok : ofFrames frames = .ok x ↔ x.Answers frames := by
  constructor
  · intro h
    unfold ofFrames at h
    split at h
    · cases h
    · rename_i r hr
      split at h
      · cases h
      · rename_i hstop
        split at h
        · cases h
        · rename_i reply hread
          split at h
          · cases h
          · rename_i hrejection
            cases h
            exact ⟨⟨r,hr,rfl⟩,hstop,hread,by simpa [SessionMessage.isRejection] using hrejection⟩
  · rintro ⟨⟨r,hr,hp⟩,hstop,hread,hrejection⟩
    simp [ofFrames, hr, hp, hstop, hread, SessionMessage.isRejection, hrejection]

def NamesOwn (server : String) (x : Acceptance) : Prop :=
  x.reply.requestType = SessionMessage.sessionInitiated ∧ x.reply.payload ≠ "" ∧
    x.reply.payload ≠ server

theorem sessionAddress?_eq_some {own : String} :
    x.sessionAddress? server = some own ↔ x.NamesOwn server ∧ x.reply.payload = own := by
  simp [sessionAddress?, NamesOwn]

theorem sessionAddress?_eq_none : x.sessionAddress? server = none ↔ ¬ x.NamesOwn server := by
  simp [sessionAddress?, NamesOwn]

def address (server : String) (x : Acceptance) : String := (x.sessionAddress? server).getD server

end Acceptance

def Welcomes (r : Option Received) (x : Acceptance) : Prop :=
  ∃ frames, r = some (.message frames) ∧ x.Answers frames

section
variable {r : Option Received} {x y : Acceptance}

theorem Welcomes.unique (h : Welcomes r x) (h' : Welcomes r y) : x = y := by
  obtain ⟨frames,rfl,hx⟩ := h
  obtain ⟨frames',he,hy⟩ := h'
  cases he
  have hboth := (Acceptance.ofFrames_eq_ok.mpr hx).symm.trans (Acceptance.ofFrames_eq_ok.mpr hy)
  exact Except.ok.inj hboth

theorem not_welcomes_of_refusal? {g : Received} {f : Fault} (hf : refusal? g = some f) :
    ¬ Welcomes (some g) x := by
  rintro ⟨frames,he,hx⟩
  cases he
  simp [refusal?, Acceptance.ofFrames_eq_ok.mpr hx] at hf

end

/-! ## What is reported -/

/-- What the sender hears is no news to anybody, so it is reported. -/
theorem heed_of_refusal? {n n' : Network} {id : Nat} {g : Received} {f : Fault}
    (hr : n.receive id = some (g,n')) (hf : refusal? g = some f) (m : Monitor) :
    State.heed f m = m.report f := by
  rcases fault_of_refusal? hr hf with ⟨_,rfl⟩ | ⟨_,rfl⟩ | ⟨_,rfl⟩ | rfl <;> rfl

namespace State
variable {s t u w : State} {e : Episode} {a : Act} {r : Option Received} {manager deadline : Nat}
  {expired : Bool} {x : Acceptance}

/-! ## The three ends -/

def IsConnected (s : State) : Prop :=
  ∃ e manager session, s.episode = some e ∧ e.sender = .forwarding manager session

/-- There is no address of its own to be reached with this answer, or it is reached. -/
def Reaches (s : State) (x : Acceptance) : Prop :=
  x.NamesOwn s.settings.server → s.network.mode = .accept

def Hangs (s : State) (x : Acceptance) : Prop :=
  x.NamesOwn s.settings.server ∧ s.network.mode = .hang

/-- Connecting has succeeded with the answer `x`, which was delivered but not counted, and the
receiver was handed the connection to the address that was told. -/
structure Connected (s : State) (manager : Nat) (x : Acceptance) (t : State) : Prop where
  tasks : ∃ e session, t.episode = some e ∧ e.sender = .forwarding manager session ∧
    e.receiver = .handed (session.getD manager) ∧
    t.network.part? Link.facing (session.getD manager) = some (x.address s.settings.server,true)
  told : outcome t.journal =
    s.deliveries x.payload ++ [.event (.connected (x.address s.settings.server))]
  uncounted : t.sent = 0 ∧ t.received = 0
  unreported : t.monitor = s.monitor

structure Hanging (s : State) (manager : Nat) (t : State) : Prop where
  sender : ∃ e, t.episode = some e ∧ e.sender = .joining manager ∧ e.stopped = false
  told : outcome t.journal = []
  reported : t.monitor.reported = s.monitor.reported

structure Failed (s : State) (f : Fault) (t : State) : Prop where
  episode : ∃ e, t.episode = some e ∧ e.connectFailed = true
  told : outcome t.journal = [.event (.connectFailed f.message)]
  reported : t.monitor.reported = s.monitor.reported + 1
  dropped : ∀ k, t.network.sinkHeld k = false ∧ t.network.streamHeld k = false

theorem Reaches.not_hangs (h : s.Reaches x) : ¬ s.Hangs x := by
  rintro ⟨hown,hm⟩
  cases hm.symm.trans (h hown)

theorem Connected.isConnected (h : Connected s manager x t) : t.IsConnected := by
  obtain ⟨e,session,he,hs,_⟩ := h.tasks
  exact ⟨e,manager,session,he,hs⟩

theorem Hanging.not_isConnected (h : Hanging s manager t) : ¬ t.IsConnected := by
  obtain ⟨e,he,hs,_⟩ := h.sender
  rintro ⟨e',_,_,he',hs'⟩
  obtain rfl : e = e' := Option.some.inj (he.symm.trans he')
  cases hs.symm.trans hs'

theorem Failed.not_isConnected {f : Fault} (h : Failed s f t) (ht : t.Sound) : ¬ t.IsConnected := by
  obtain ⟨e,he,hf⟩ := h.episode
  rintro ⟨e',_,_,he',hs'⟩
  obtain rfl : e = e' := Option.some.inj (he.symm.trans he')
  cases ((ht.live e he).1.valid.failed hf).1.symm.trans hs'

/-! ## What the sender does with what it hears -/

theorem Tidy.dropped (h : s.Tidy) (hs : s.Sound) (he : s.episode = some e)
    (hf : e.connectFailed = true) (k : Nat) :
    s.network.sinkHeld k = false ∧ s.network.streamHeld k = false := by
  obtain ⟨hsender,hreceiver⟩ := (hs.live e he).1.valid.failed hf
  have ho := h.live e he
  constructor
  · refine Bool.eq_false_iff.mpr fun hk => ?_
    simpa [hsender, Sender.sinks] using ho.sink k hk
  · refine Bool.eq_false_iff.mpr fun hk => ?_
    have hm := ho.stream k hk
    rcases hreceiver with hr | hr <;>
      simp [hsender, hr, Episode.streams, Sender.streams, Receiver.streams] at hm

/-- The connection that was just opened leads to its address, whatever other one is given up. -/
theorem facing_opened {n : Network} (h : manager < n.links.length) (own : String) :
    (Network.dropStream manager { n with links := n.links ++ [({ address := own } : Link)] }).part?
      Link.facing n.links.length = some (own,true) := by
  rw [Network.part?_dropStream_of_ne (Nat.ne_of_lt h), Network.part?_open, if_pos rfl]
  rfl

/-- The sender of `u` is to move in the episode `e`, and `r` is what ends the handshake of `s`. -/
structure Listens (s : State) (manager : Nat) (r : Option Received) (u : State) (e : Episode) :
    Prop where
  waiting : e.receiver = .waiting
  notStopped : e.stopped = false
  silent : outcome u.journal = []
  settings : u.settings = s.settings
  facing : u.network.part? Link.facing manager = some (u.settings.server,true)
  deliveries : ∀ payload, u.deliveries payload = s.deliveries payload
  counters : u.sent = 0 ∧ u.received = 0
  monitor : r ≠ none → u.monitor = s.monitor

theorem Lingers.listens (h : Lingers s manager deadline a expired u) (hu : u.Sound)
    (hp : u.Poised) (hr : r = none ↔ deadline ≤ u.clock) (he : u.episode = some e)
    (hs : e.sender = .awaiting manager deadline expired) : Listens s manager r u e := by
  have hl := (hu.live e he).1
  have hc : e.sender.isConnecting = true := by rw [hs]; rfl
  have hx : e.stopped = false := by
    obtain ⟨e',he',_,hx⟩ := h.sender
    cases he.symm.trans he'
    exact (Bool.or_eq_false_iff.mp hx).1
  refine
    { waiting := hl.valid.waiting hc hx
      notStopped := hx
      silent := hp.hushed e he hc
      settings := h.settings
      facing := hp.facing e manager deadline expired he hs
      deliveries := fun payload => by rw [State.deliveries, h.listener, State.deliveries]
      counters := hl.counters (.inl hc)
      monitor := fun hn => ?_ }
  have hearly : expired = false := Bool.eq_false_iff.mpr fun hx => hn (hr.mpr (h.late hx))
  rw [h.monitor, hearly]
  rfl

theorem Listens.dialled (h : Listens s manager r u e) (own : String) :
    outcome (u.journal ++ [.dialled own]) = [] := by
  rw [outcome_append _ (by simp), h.silent]
  rfl

/-- Accepted, the session runs over a connection to the address that it was to have. -/
theorem Listens.connected (h : Listens s manager r u e) (hr : r ≠ none) (session : Option Nat)
    {n : Network} {l : List Entry} {own : String} {inUse : Nat} (hl : outcome l = [])
    (ho : x.address s.settings.server = own)
    (hn : n.part? Link.facing (session.getD manager) = some (own,true)) :
    Connected s manager x { u with
      network := n
      journal := l ++ u.deliveries x.payload ++ [.event (.connected own)]
      episode := some { e with
        sender := .forwarding manager session
        receiver := .handed (session.getD manager)
        inUse } } := by
  subst ho
  refine ⟨⟨_,session,rfl,rfl,rfl,hn⟩,?_,h.counters,h.monitor hr⟩
  rw [outcome_append _ (by simp), outcome_deliveries, hl, h.deliveries]
  rfl

/-- Given up, an episode has nothing left but that its receiver has to end. -/
theorem failed_giveUp {v : State} {f : Fault}
    (hsound : ((v.giveUp f).settleEpisode e.fail).Sound)
    (htidy : ((v.giveUp f).settleEpisode e.fail).Tidy) (hw : e.receiver = .waiting)
    (hv : e.fail.Valid) (hl : outcome v.journal = [])
    (hm : heed f v.monitor = s.monitor.report f) :
    ((v.giveUp f).settleEpisode e.fail).monitor = s.monitor.report f ∧
      Failed s f ((v.giveUp f).settleEpisode e.fail) := by
  have ho : e.fail.isOver = false :=
    hv.isOver_eq_false (.inr (by simp [Episode.fail, Episode.quit, hw]))
  rw [settleEpisode_of_not_over ho] at *
  refine ⟨hm,⟨e.fail,rfl,rfl⟩,?_,congrArg Monitor.reported hm,htidy.dropped hsound rfl rfl⟩
  change outcome (v.journal ++ [.event (.connectFailed f.message)]) = _
  rw [outcome_append _ (by simp), hl]
  rfl

inductive Verdict (s : State) (manager : Nat) (r : Option Received) (u t : State) : Prop
  | connected (x : Acceptance) (hw : Welcomes r x) (hx : s.Reaches x) (h : Connected s manager x t)
  | hanging (x : Acceptance) (hw : Welcomes r x) (hx : s.Hangs x) (h : Hanging s manager t)
  | failed (f : Fault) (hw : ∀ x, Welcomes r x → ¬ s.Reaches x ∧ ¬ s.Hangs x)
    (hm : t.monitor = s.monitor.report f)
    (hs : r = none → f = .handshakeTimeout s.settings.server s.settings.timeout ∧
      u.monitor = t.monitor) (h : Failed s f t)

theorem Lingers.verdict (h : Lingers s manager deadline a expired u) (hu : u.Sound)
    (hp : u.Poised) (hr : (u.network.receive manager).map Prod.fst = r)
    (hlate : r = none ↔ deadline ≤ u.clock) (hmode : u.network.mode = s.network.mode)
    (hmove : u.senderMove = some t) (ht : t.Sound) (htidy : t.Tidy) :
    Verdict s manager r u t := by
  obtain ⟨e,he,hs,hx⟩ := h.sender
  have hv := (hu.live e he).1.valid
  have hear := h.listens hu hp hlate he hs
  have hw : e.receiver = .waiting := hear.waiting
  have hsome {g : Received} {n : Network} (hn : u.network.receive manager = some (g,n)) :
      r = some g := hr.symm.trans (congrArg (Option.map Prod.fst) hn)
  obtain ⟨w,e',hanswer,rfl⟩ := senderMove_of_awaiting he hs hmove
  obtain ⟨hturn,hn⟩ := turn_awaitAnswer hv hs hanswer
  have hv' : e'.Valid := hturn.valid hv
  cases hturn with
  | reject hs' _ hr' hf =>
    obtain ⟨rfl,_⟩ := Sender.awaiting.inj (hs.symm.trans hs')
    obtain rfl := hsome hr'
    have hreport := (heed_of_refusal? hr' hf u.monitor).trans
      (congrArg (Monitor.report _) (hear.monitor nofun))
    obtain ⟨hm,hfailed⟩ := failed_giveUp ht htidy hw hv' hear.silent hreport
    exact .failed _ (fun x hx => absurd hx (not_welcomes_of_refusal? hf)) hm nofun hfailed
  | timeOut hs' _ hr' =>
    obtain ⟨rfl,_,rfl⟩ := Sender.awaiting.inj (hs.symm.trans hs')
    obtain rfl : r = none := hr.symm.trans (congrArg (Option.map Prod.fst) hr')
    have hreport := h.monitor
    rw [if_pos rfl, ← h.settings] at hreport
    obtain ⟨hm,hfailed⟩ := failed_giveUp ht htidy hw hv' hear.silent hreport
    refine .failed _ (fun x hx => ?_) hm (fun _ => ⟨?_,hreport.trans hm.symm⟩) hfailed
    · obtain ⟨_,hx,_⟩ := hx
      cases hx
    · rw [h.settings]
  | @refuseOwn _ _ _ _ _ _ own hs' _ hr' ha hd hm =>
    obtain ⟨rfl,_⟩ := Sender.awaiting.inj (hs.symm.trans hs')
    obtain rfl := hsome hr'
    rw [Network.mode_receive hr', hmode] at hm
    rw [h.settings, Acceptance.sessionAddress?_eq_some] at hd
    have hreport := congrArg (Monitor.report (.refused own)) (hear.monitor nofun)
    obtain ⟨hm',hfailed⟩ := failed_giveUp ht htidy hw hv' (hear.dialled own) hreport
    refine .failed _ (fun x hx => ?_) hm' nofun hfailed
    obtain rfl := hx.unique ⟨_,rfl,Acceptance.ofFrames_eq_ok.mp ha⟩
    exact ⟨fun hr => (by cases hm.symm.trans (hr hd.1)),fun hg => (by cases hm.symm.trans hg.2)⟩
  | @hangOwn _ _ _ _ _ _ own hs' _ hr' ha hd hm =>
    obtain ⟨rfl,_⟩ := Sender.awaiting.inj (hs.symm.trans hs')
    obtain rfl := hsome hr'
    rw [Network.mode_receive hr', hmode] at hm
    rw [h.settings, Acceptance.sessionAddress?_eq_some] at hd
    refine .hanging _ ⟨_,rfl,Acceptance.ofFrames_eq_ok.mp ha⟩ ⟨hd.1,hm⟩ ?_
    rw [settleEpisode_of_not_over (hv'.isOver_eq_false (.inl nofun))]
    exact ⟨⟨_,rfl,rfl,hear.notStopped⟩,hear.dialled own,
      congrArg Monitor.reported (hear.monitor nofun)⟩
  | @establish _ _ _ _ _ x hs' _ _ hr' ha hd =>
    obtain ⟨rfl,_⟩ := Sender.awaiting.inj (hs.symm.trans hs')
    obtain rfl := hsome hr'
    rw [h.settings] at hd
    have ho : x.address s.settings.server = u.settings.server := by
      rw [Acceptance.address, hd, h.settings, Option.getD_none]
    refine .connected x ⟨_,rfl,Acceptance.ofFrames_eq_ok.mp ha⟩
      (fun hown => absurd hown (Acceptance.sessionAddress?_eq_none.mp hd)) ?_
    have hfacing := (Network.part?_receive hr' (fun _ _ => rfl) _).trans hear.facing
    rw [settleEpisode_of_not_over (hv'.isOver_eq_false (.inl nofun))]
    exact hear.connected nofun none hear.silent ho hfacing
  | @establishOwn _ _ _ _ n x own hs' _ _ hr' ha hd hm =>
    obtain ⟨rfl,_⟩ := Sender.awaiting.inj (hs.symm.trans hs')
    obtain rfl := hsome hr'
    rw [Network.mode_receive hr', hmode] at hm
    rw [h.settings] at hd
    have ho : x.address s.settings.server = own := by
      rw [Acceptance.address, hd, Option.getD_some]
    refine .connected x ⟨_,rfl,Acceptance.ofFrames_eq_ok.mp ha⟩ (fun _ => hm) ?_
    have hlt : manager < n.links.length := by
      rw [Network.links_receive_length hr']
      exact Network.lt_of_receive hr'
    rw [settleEpisode_of_not_over (hv'.isOver_eq_false (.inl nofun))]
    exact hear.connected nofun (some _) (hear.dialled own) ho (facing_opened hlt own)
  -- the other turns are the watchdog's, the receiver's, or those of a sender that does not wait
  | expire => cases hn
  | leave _ _ hx' | excuse _ hx' => cases hx.symm.trans hx'
  | overlook hr' | accept hr' | desist hr' | finish hr' | skip hr' | count hr' =>
    cases hw.symm.trans hr'
  | abandon hs' | refuse hs' | hang hs' | greet hs' | halt hs' | write hs' | trip hs' | lose hs' =>
    cases hs.symm.trans hs'

/-! ## What comes after -/

/-- If no move within the episode reports anything, then nothing is reported. -/
theorem reported_apply (hs : s.Sane)
    (h : ∀ e e' t, s.episode = some e → Turn s e t e' → t.monitor = s.monitor) (a : Act) :
    (s.apply a).monitor.reported = s.monitor.reported := by
  have hstep {task : Task} {s' : State} (hc : Step s task s') : s'.monitor = s.monitor :=
    hc.monitor_eq h
  cases a with
  | move task =>
    cases hm : s.move task with
    | none => simp [apply, hm]
    | some s' => simp [apply, hm, hstep (step_move hs hm)]
  | overlook =>
    rcases step_overlook hs with hv | hc
    · exact congrArg (·.monitor.reported) hv
    · exact congrArg Monitor.reported (hstep hc)
  | send | sendIgnoringReply | disconnect => exact congrArg Monitor.reported (monitor_send ..)
  | attempt => exact congrArg Monitor.reported (monitor_trySend ..)
  | close => exact congrArg Monitor.reported s.monitor_close
  | listen | network | tick | shutdown => rfl

theorem Failed.apply {f : Fault} (h : Failed s f t) (ht : t.Sound) (htidy : t.Tidy) (a : Act)
    (hl : (t.apply a).episode.isSome = true) : Failed s f (t.apply a) := by
  obtain ⟨e,he,hf⟩ := h.episode
  have hv := (ht.live e he).1.valid
  have hends := hv.failed hf
  have hsame {e₀ e' : Episode} {w : State} (he₀ : t.episode = some e₀) (hturn : Turn t e₀ w e') :
      w = t ∧ e'.connectFailed = true := by
    obtain rfl : e = e₀ := Option.some.inj (he.symm.trans he₀)
    have hc : e.sender.isConnecting = false := by rw [hends.1]; rfl
    exact ⟨hturn.eq_of_failed hends.1 hends.2,(hturn.silent hc).2.2.trans hf⟩
  have hreported := reported_apply ht.sane
    (fun _ _ _ he₀ hturn => congrArg State.monitor (hsame he₀ hturn).1) a
  have hgoes : (∃ e, (t.apply a).episode = some e ∧ e.connectFailed = true) ∧
      outcome (t.apply a).journal = outcome t.journal := by
    rcases (effect_apply ht.sane a).cases with ⟨e₀,e',w,_,he₀,hturn,hv⟩ | ⟨_,hd,_⟩ | hb
    · obtain ⟨rfl,hf'⟩ := hsame he₀ hturn
      rw [hv] at hl ⊢
      cases ho : e'.isOver with
      | false =>
        rw [settleEpisode_of_not_over ho]
        exact ⟨⟨e',rfl,hf'⟩,rfl⟩
      | true =>
        rw [settleEpisode_of_over ho, episode_onReleased] at hl
        cases hl
    · cases he.symm.trans (ht.idle_of_due hd)
    · exact ⟨⟨e,hb.episode.trans he,hf⟩,hb.journal.outcome_eq⟩
  obtain ⟨⟨e',he',hf'⟩,hj⟩ := hgoes
  have htidy' : (t.apply a).Tidy := tidy_run ht htidy [a]
  exact ⟨⟨e',he',hf'⟩,hj.trans h.told,hreported.trans h.reported,
    htidy'.dropped (ht.apply a) he' hf'⟩

/-- As long as the episode lasts nothing else comes of it. -/
theorem Failed.run {f : Fault} {more : List Act} (h : Failed s f t) (ht : t.Sound)
    (htidy : t.Tidy) (hl : t.Lasts more) : Failed s f (t.run more) := by
  induction more generalizing t with
  | nil => exact h
  | cons a more ih =>
    obtain ⟨_,hl'⟩ := lasts_cons.mp hl
    exact ih (h.apply ht htidy a hl'.isSome) (ht.apply a) (tidy_run ht htidy [a]) hl'

theorem Hanging.apply (h : Hanging s manager t) (ht : t.Sound) (hp : t.Poised)
    (hk : t.isCancelled = false) (a : Act) : Hanging s manager (t.apply a) := by
  obtain ⟨e,he,hs,hst⟩ := h.sender
  have hc : e.sender.isConnecting = true := by rw [hs]; rfl
  have hw : e.receiver = .waiting := (ht.live e he).1.valid.waiting hc hst
  have hx : t.isStopped e = false := by rw [isStopped, hst, hk]; rfl
  have hnone {e₀ e' : Episode} {w : State} (he₀ : t.episode = some e₀) : ¬ Turn t e₀ w e' := by
    obtain rfl : e = e₀ := Option.some.inj (he.symm.trans he₀)
    intro hturn
    cases hturn <;> simp_all
  have hreported := reported_apply ht.sane (fun _ _ _ he₀ hturn => absurd hturn (hnone he₀)) a
  have hep : (t.apply a).episode = some e := by
    rcases (effect_apply ht.sane a).cases with ⟨_,_,_,_,he₀,hturn,_⟩ | ⟨_,hd,_⟩ | hb
    · exact absurd hturn (hnone he₀)
    · cases he.symm.trans (ht.idle_of_due hd)
    · exact hb.episode.trans he
  have hp' : (t.apply a).Poised := poised_run ht hp [a]
  exact ⟨⟨e,hep,hs,hst⟩,hp'.hushed e hep hc,hreported.trans h.reported⟩

/-- Unless the session is to end, the attempt goes on for ever. -/
theorem Hanging.run {more : List Act} (h : Hanging s manager t) (ht : t.Sound) (hp : t.Poised)
    (hk : (t.run more).isCancelled = false) : Hanging s manager (t.run more) := by
  induction more generalizing t with
  | nil => exact h
  | cons a more ih =>
    have hk' : t.isCancelled = false := isCancelled_of_run ht hk
    exact ih (h.apply ht hp hk' a) (ht.apply a) (poised_run ht hp [a]) hk

/-- What a session that waits in a handshake hears first, or that the time is up, ends the
handshake when the sender moves, which it does before the tasks rest. The session is connected if
and only if the answer accepts it and its own address, if it is to have one, is reached. If the
attempt to reach that address never ends, nothing else happens unless the session is to end. Else
connecting has failed. -/
theorem handshake_outcome (c : Settings) (m : Mode) (monitor : Monitor) (listener : Option Nat)
    (acts : List Act) {manager deadline : Nat} {a : Act} {r : Option Received}
    (hw : ((start c m monitor listener).run acts).Awaits manager deadline)
    (ha : Relief ((start c m monitor listener).run acts) manager deadline a r) :
    let s := (start c m monitor listener).run acts
    ∀ (others : List Task) (u : State), .sender ∉ others →
      others.foldlM State.move (s.apply a) = some u →
      u.isQuiescent = false ∧
      ∀ t, u.senderMove = some t →
        (t.IsConnected ↔ ∃ x, Welcomes r x ∧ s.Reaches x) ∧
        (∀ x, Welcomes r x → s.Reaches x → Connected s manager x t) ∧
        (∀ x, Welcomes r x → s.Hangs x → ∀ more, (t.run more).isCancelled = false →
          Hanging s manager (t.run more)) ∧
        ((∀ x, Welcomes r x → ¬ s.Reaches x ∧ ¬ s.Hangs x) →
          ∃ f, t.monitor = s.monitor.report f ∧
            (r = none → f = .handshakeTimeout s.settings.server s.settings.timeout ∧
              u.monitor = t.monitor) ∧
            ∀ more, t.Lasts more → Failed s f (t.run more)) := by
  intro s others u hn hm
  have hs : s.Sound := sound_run (sound_start ..) acts
  have hp : s.Poised := poised_run (sound_start ..) (poised_start ..) acts
  have htidy : s.Tidy := tidy_run (sound_start ..) (tidy_start ..) acts
  obtain ⟨hr,hlate,hmode⟩ := ha.hears hw hp
  obtain ⟨hu,hup,expired,hlingers⟩ :=
    (ha.lingers hw).moves (hs.apply a) (poised_run hs hp [a]) hn hm
  rw [← hlingers.network] at hr hmode
  rw [← hlingers.clock] at hlate
  refine ⟨hlingers.not_isQuiescent hr hlate,fun t hmove => ?_⟩
  have hstep : Step u .sender t := step_move hu.sane hmove
  have ht : t.Sound := hstep.sound hu
  have htp : t.Poised := hstep.poised hu hup
  have htt : t.Tidy := by
    have hut : u.Tidy := run_of_moves hm ▸ tidy_run (hs.apply a) (tidy_run hs htidy [a]) _
    exact hstep.tidy hu hut
  cases hlingers.verdict hu hup hr hlate hmode hmove ht htt with
  | connected x hx hreach h =>
    exact ⟨iff_of_true h.isConnected ⟨x,hx,hreach⟩,fun y hy _ => hx.unique hy ▸ h,
      fun y hy hg => absurd (hx.unique hy ▸ hg) hreach.not_hangs,
      fun hnone => absurd hreach (hnone x hx).1⟩
  | hanging x hx hang h =>
    have hnot {y : Acceptance} (hy : Welcomes r y) : ¬ s.Reaches y :=
      fun hreach => (hx.unique hy ▸ hreach.not_hangs) hang
    exact ⟨iff_of_false h.not_isConnected fun ⟨_,hy,hreach⟩ => hnot hy hreach,
      fun _ hy hreach => absurd hreach (hnot hy),fun _ _ _ more hk => h.run ht htp hk,
      fun hnone => absurd hang (hnone x hx).2⟩
  | failed f hnone hreport hsilent h =>
    exact ⟨iff_of_false (h.not_isConnected ht) fun ⟨x,hx,hreach⟩ => (hnone x hx).1 hreach,
      fun x hx hreach => absurd hreach (hnone x hx).1,fun x hx hg => absurd hg (hnone x hx).2,
      fun _ => ⟨f,hreport,hsilent,fun more hl => h.run ht htt hl⟩⟩

/-- A short answer accepts the session, which then runs over the connection to its manager. -/
theorem handshake_outcome_connected :
    let s := (start .sample .accept {} (some 0)).run [.move .sender]
    let text := "[\"SESSION_INITIATED\",\"client-1\"]"
    let frames := Wire.clientMessage (.ofText "session-manager") [.ofText text]
    let x : Acceptance := ⟨text,{ requestType := "SESSION_INITIATED", sessionId := "client-1" }⟩
    (s.Awaits 0 1000 ∧
      Relief s 0 1000 (.network (.offer 0 (.message frames))) (some (.message frames))) ∧
    ∃ t, (s.apply (.network (.offer 0 (.message frames)))).senderMove = some t ∧
      Connected s 0 x t := by
  intro s text frames x
  have hw : s.Awaits 0 1000 :=
    ⟨⟨_,rfl,rfl⟩,Option.isNone_iff_eq_none.mp (by decide +kernel),
      Option.isNone_iff_eq_none.mp (by decide +kernel)⟩
  have ha : Relief s 0 1000 (.network (.offer 0 (.message frames))) (some (.message frames)) :=
    .arrival (.message frames)
  have hmove : (s.apply (.network (.offer 0 (.message frames)))).senderMove.isSome = true := by
    decide +kernel
  obtain ⟨t,ht⟩ := Option.isSome_iff_exists.mp hmove
  have hends := handshake_outcome .sample .accept {} (some 0) [.move .sender] hw ha [] _ nofun rfl
  have hx : Welcomes (some (.message frames)) x :=
    ⟨frames,rfl,Acceptance.ofFrames_eq_ok.mp (by decide +kernel)⟩
  exact ⟨⟨hw,ha⟩,t,ht,(hends.2 t ht).2.1 x hx fun hown => absurd rfl hown.2.1⟩

/-- The session is accepted, but its own address is never reached: at rest neither is told, nothing
is reported, and the connection to the session manager is still there. -/
theorem own_address_never_reached :
    let s := (start .sample .accept {} (some 0)).run [.move .sender, .network (.mode .hang)]
    let frames := Wire.clientMessage (.ofText "session-manager")
      [.ofText "[\"SESSION_INITIATED\",\"client-1\",\"\",\"session:9000\"]"]
    let t := ((s.apply (.network (.offer 0 (.message frames)))).settle).advance 5000
    s.isQuiescent = true ∧ s.episode.any (·.sender.isAwaiting) = true ∧
      t.isQuiescent = true ∧ t.events = [] ∧ t.monitor.reported = 0 ∧
      t.network.sinkHeld 0 = true ∧ t.network.streamHeld 0 = true := by
  decide +kernel

end State
end Majordomo.Client
