import Majordomo.Proofs.Client.Handshake
import Majordomo.Proofs.Client.Replies

/-! # Which replies the application gets

What the receiver takes is a reply, which is counted, or no reply, which is dropped, or what ends
the episode. A reply is withheld from the listener if and only if the application has asked for
that since the last one was counted, be it in this episode or in one before it. The session
manager's answer is handed to the listener if with it the session is connected. It is not counted,
so what is to be withheld is still the next reply.
-/
namespace Majordomo.Client

namespace Entry

def isIncoming : Entry → Bool
  | .counted _ | .delivered .. => true
  | _ => false

theorem isIncoming_of_isOutside {x : Entry} (h : x.isOutside = true) : x.isIncoming = false := by
  cases x with
  | counted | delivered => cases h
  | _ => rfl

end Entry

def Act.isIgnoring : Act → Bool
  | .sendIgnoringReply .. => true
  | _ => false

structure Episode.HungUp (e : Episode) : Prop where
  sender : ∃ manager session, e.sender = .forwarding manager session
  receiver : e.receiver = .ended
  stopped : e.stopped = true

namespace State
variable {s s' t : State} {e e' : Episode} {a : Act} {id : Nat} {r : Received} {n : Network}
  {x : Acceptance}

def incoming (s : State) : List Entry := s.journal.filter Entry.isIncoming

def receives (s : State) (a : Act) : Option Received :=
  match a, s.episode with
  | .move .receiver, some e =>
    match e.receiver with
    | .reading id => if s.isStopped e then none else (s.network.receive id).map Prod.fst
    | _ => none
  | _, _ => none

/-- What the sender hears with the act over the connection on which it has greeted. -/
def hears (s : State) (a : Act) : Option Received :=
  match a, s.episode with
  | .move .sender, some e =>
    match e.sender with
    | .awaiting manager .. =>
      if s.isStopped e then none else (s.network.receive manager).map Prod.fst
    | _ => none
  | _, _ => none

/-- When `n` replies had been counted, the application asked that the next one be withheld. -/
def Ignores (s : State) (acts : List Act) (n : Nat) : Prop :=
  ∃ l ticket o l', acts = l ++ .sendIgnoringReply ticket o :: l' ∧ (s.run l).counted.length = n

inductive Intake (s : State) (a : Act) (ignored : Prop) (t : State) : Prop
  /-- A reply is counted only. -/
  | withheld (payload : String) (hr : (s.receives a).bind Received.reply? = some payload)
      (hi : ignored) (h : t.incoming = s.incoming ++ [.counted payload])
      (hn : t.received = s.received + 1)
  /-- A reply is counted, and handed to the listener if there is one. -/
  | delivered (payload : String) (hr : (s.receives a).bind Received.reply? = some payload)
      (hi : ¬ ignored) (h : t.incoming = s.incoming ++ .counted payload :: s.deliveries payload)
      (hn : t.received = s.received + 1)
  /-- The session is connected with an answer, which is handed to the listener if there is one. -/
  | greeted (x : Acceptance) (hx : Welcomes (s.hears a) x) (hreach : s.Reaches x)
      (hc : t.IsConnected) (h : t.incoming = s.incoming ++ s.deliveries x.payload)
      (hn : t.received = s.received)
  | nothing (hr : (s.receives a).bind Received.reply? = none)
      (hx : ∀ x, Welcomes (s.hears a) x → ¬ s.Reaches x) (h : t.incoming = s.incoming)

/-! ## What has come in -/

theorem incoming_of_isOutside (h : Grows Entry.isOutside s.journal t.journal) :
    t.incoming = s.incoming := by
  obtain ⟨m,hm,hl⟩ := h
  have hnone : m.filter Entry.isIncoming = [] := List.filter_eq_nil_iff.mpr fun x hx => by
    rw [Entry.isIncoming_of_isOutside (hm x hx)]
    exact Bool.false_ne_true
  rw [incoming, hl, List.filter_append, hnone, List.append_nil]
  rfl

@[simp] theorem incoming_settleEpisode (e : Episode) (s : State) :
    (s.settleEpisode e).incoming = s.incoming := by
  cases ho : e.isOver with
  | false =>
    rw [settleEpisode_of_not_over ho]
    rfl
  | true =>
    let told : State := { s with journal := s.journal ++ [.event .disconnected] }
    have htold : told.incoming = s.incoming := by simp [told, incoming, Entry.isIncoming]
    rw [settleEpisode_of_over ho, ← htold]
    exact incoming_of_isOutside (grows_outside (grows_onReleased e.connectFailed s))

theorem received_settleEpisode (e : Episode) (s : State) :
    (s.settleEpisode e).received = s.received :=
  (congrArg received (body_settleEpisode e s) :)

theorem filter_deliveries (payload : String) (s : State) :
    (s.deliveries payload).filter Entry.isIncoming = s.deliveries payload := by
  unfold deliveries
  cases s.listener <;> rfl

/-- What is counted is part of what comes in. -/
theorem counted_eq (s : State) : s.counted = s.incoming.filterMap Entry.counted? := by
  rw [incoming, List.filterMap_filter]
  refine List.filterMap_congr fun x _ => ?_
  cases x <;> rfl

/-! ## What the receiver takes -/

theorem receives_eq_some :
    s.receives a = some r ↔ a = .move .receiver ∧ ∃ e id n, s.episode = some e ∧
      e.receiver = .reading id ∧ s.isStopped e = false ∧ s.network.receive id = some (r,n) := by
  constructor
  · intro h
    unfold receives at h
    split at h
    · rename_i e he
      split at h
      · rename_i id hr
        split at h
        · cases h
        · rename_i hx
          obtain ⟨⟨r,n⟩,hn,rfl⟩ := Option.map_eq_some_iff.mp h
          exact ⟨rfl,e,id,n,he,hr,Bool.eq_false_iff.mpr hx,hn⟩
      · cases h
    · cases h
  · rintro ⟨rfl,e,id,n,he,hr,hx,hn⟩
    simp [receives, he, hr, hx, hn]

/-- A reply is counted; what is no reply is dropped, unless it ends the reading. -/
theorem read_eq (hx : s.isStopped e = false) (hn : s.network.receive id = some (r,n)) :
    s.read id e = some (match r.reply? with
      | some payload => ({ s with network := n }.count payload,e)
      | none =>
        if isLast r then { s with network := n }.endReading id e
        else ({ s with network := n },e)) := by
  unfold read
  rw [hx, hn]
  cases r with
  | message frames =>
    cases hf : Wire.ClientReply.ofFrames frames with
    | error v => simp [Received.reply?, isLast, hf]
    | ok r =>
      by_cases hp : r.payload = SessionMessage.stopPayload <;>
        simp [Received.reply?, isLast, hf, hp]
  | failed | ended => simp [Received.reply?, isLast]

theorem receiverTurn_of_reading (hr : e.receiver = .reading id) :
    s.receiverTurn e = s.read id e := by
  simp [receiverTurn, hr]

theorem apply_receiver (he : s.episode = some e) (hr : e.receiver = .reading id)
    (h : s.read id e = some (t,e')) : s.apply (.move .receiver) = t.settleEpisode e' := by
  have hmove : s.receiverMove = some (t.settleEpisode e') := by
    rw [receiverMove, within_of_live he, receiverTurn_of_reading hr, h]
    rfl
  rw [apply, move, hmove, Option.getD_some]

/-- The episode goes on if what is taken does not end the reading. -/
theorem apply_receiver_self (hs : s.Sound) (he : s.episode = some e)
    (hr : e.receiver = .reading id) (h : s.read id e = some (t,e)) (ht : t.episode = s.episode) :
    s.apply (.move .receiver) = t :=
  (apply_receiver he hr h).trans (settleEpisode_self (ht.trans he) (hs.live e he).2)

theorem incoming_count (payload : String) (s : State) :
    (s.count payload).incoming =
      s.incoming ++ .counted payload :: if s.suppressNext then [] else s.deliveries payload := by
  have hsplit : [Entry.counted payload].filter Entry.isIncoming = [.counted payload] := rfl
  rw [count_eq, incoming, List.filter_append, List.filter_append, hsplit, List.append_assoc]
  refine congrArg (s.incoming ++ .counted payload :: ·) ?_
  split
  · rfl
  · exact filter_deliveries payload s

theorem intake_of_reply {payload : String} (hs : s.Sound)
    (h : (s.receives a).bind Received.reply? = some payload) :
    Intake s a (s.suppressNext = true) (s.apply a) := by
  obtain ⟨r,hr,hp⟩ := Option.bind_eq_some_iff.mp h
  obtain ⟨rfl,e,id,n,he,hread,hx,hn⟩ := receives_eq_some.mp hr
  have hv : s.apply (.move .receiver) = { s with network := n }.count payload :=
    apply_receiver_self hs he hread (by rw [read_eq hx hn, hp]) (by rw [count_eq])
  have hreceived : (s.apply (.move .receiver)).received = s.received + 1 := by
    rw [hv, count_eq]
  have hin := (congrArg incoming hv).trans (incoming_count payload { s with network := n })
  by_cases hi : s.suppressNext = true
  · refine .withheld payload h hi (hin.trans ?_) hreceived
    rw [if_pos (by exact hi)]
    rfl
  · refine .delivered payload h hi (hin.trans ?_) hreceived
    rw [if_neg (by exact hi)]
    rfl

theorem incoming_receiverTurn (he : s.episode = some e) (h : s.receiverTurn e = some (t,e'))
    (hr : (s.receives (.move .receiver)).bind Received.reply? = none) :
    t.incoming = s.incoming := by
  unfold receiverTurn at h
  split at h
  · split at h
    · cases h
      rfl
    · cases h
  · cases h
    rfl
  · rename_i id hread
    by_cases hx : s.isStopped e = true
    · rw [read, if_pos hx] at h
      cases h
      rfl
    · have hx : s.isStopped e = false := Bool.eq_false_iff.mpr hx
      cases hn : s.network.receive id with
      | none => simp [read, hx, hn] at h
      | some p =>
        obtain ⟨r,n⟩ := p
        have hsome := receives_eq_some.mpr ⟨rfl,e,id,n,he,hread,hx,hn⟩
        rw [hsome] at hr
        have hnone : r.reply? = none := hr
        rw [read_eq hx hn, hnone] at h
        dsimp only at h
        split at h <;> cases h <;> rfl
  · cases h

/-! ## What the sender hears -/

theorem hears_eq_some :
    s.hears a = some r ↔ a = .move .sender ∧ ∃ e manager deadline expired n, s.episode = some e ∧
      e.sender = .awaiting manager deadline expired ∧ s.isStopped e = false ∧
      s.network.receive manager = some (r,n) := by
  constructor
  · intro h
    unfold hears at h
    split at h
    · rename_i e he
      split at h
      · rename_i manager deadline expired hs
        split at h
        · cases h
        · rename_i hx
          obtain ⟨⟨r,n⟩,hn,rfl⟩ := Option.map_eq_some_iff.mp h
          exact ⟨rfl,e,manager,deadline,expired,n,he,hs,Bool.eq_false_iff.mpr hx,hn⟩
      · cases h
    · cases h
  · rintro ⟨rfl,e,manager,deadline,expired,n,he,hs,hx,hn⟩
    simp [hears, he, hs, hx, hn]

theorem welcomes_of_receive {manager deadline : Nat} {expired : Bool} {frames : Message}
    (he : s.episode = some e) (hs : e.sender = .awaiting manager deadline expired)
    (hx : s.isStopped e = false) (hn : s.network.receive manager = some (.message frames,n))
    (ha : Acceptance.ofFrames frames = .ok x) : Welcomes (s.hears (.move .sender)) x :=
  ⟨frames,hears_eq_some.mpr ⟨rfl,e,manager,deadline,expired,n,he,hs,hx,hn⟩,
    Acceptance.ofFrames_eq_ok.mp ha⟩

/-- With an acceptance whose address is reached the sender goes on to forward. -/
theorem turn_of_acceptance {manager deadline : Nat} {expired : Bool} {frames : Message}
    (hv : e.Valid) (hs : e.sender = .awaiting manager deadline expired)
    (hx : s.isStopped e = false) (hn : s.network.receive manager = some (.message frames,n))
    (ha : Acceptance.ofFrames frames = .ok x) (hreach : s.Reaches x) (h : Turn s e t e')
    (hnot : e'.sender.isAwaiting = false) :
    (∃ session, e'.sender = .forwarding manager session) ∧
      t.incoming = s.incoming ++ s.deliveries x.payload ∧ t.received = s.received := by
  have hc : e.sender.isConnecting = true := by rw [hs]; rfl
  have hwait : e.receiver = .waiting := hv.waiting hc (Bool.or_eq_false_iff.mp hx).1
  have hsame {manager' deadline' : Nat} {expired' : Bool} {frames' : Message} {n' : Network}
      {y : Acceptance} (hs' : e.sender = .awaiting manager' deadline' expired')
      (hn' : s.network.receive manager' = some (.message frames',n'))
      (ha' : Acceptance.ofFrames frames' = .ok y) : manager = manager' ∧ n = n' ∧ x = y := by
    obtain ⟨rfl,_⟩ := Sender.awaiting.inj (hs.symm.trans hs')
    obtain ⟨hr,rfl⟩ := Prod.mk.inj (Option.some.inj (hn.symm.trans hn'))
    obtain rfl := Received.message.inj hr
    exact ⟨rfl,rfl,Except.ok.inj (ha.symm.trans ha')⟩
  cases h with
  | establish hs' _ _ hn' ha' =>
    obtain ⟨rfl,_,rfl⟩ := hsame hs' hn' ha'
    exact ⟨⟨none,rfl⟩,by simp [incoming, filter_deliveries, Entry.isIncoming],rfl⟩
  | establishOwn hs' _ _ hn' ha' =>
    obtain ⟨rfl,_,rfl⟩ := hsame hs' hn' ha'
    exact ⟨⟨_,rfl⟩,by simp [incoming, filter_deliveries, Entry.isIncoming],rfl⟩
  | reject hs' _ hn' hf =>
    obtain ⟨rfl,_⟩ := Sender.awaiting.inj (hs.symm.trans hs')
    obtain ⟨rfl,_⟩ := Prod.mk.inj (Option.some.inj (hn.symm.trans hn'))
    simp [refusal?, ha] at hf
  | refuseOwn hs' _ hn' ha' hd hm | hangOwn hs' _ hn' ha' hd hm =>
    obtain ⟨_,rfl,rfl⟩ := hsame hs' hn' ha'
    rw [Network.mode_receive hn] at hm
    cases hm.symm.trans (hreach (Acceptance.sessionAddress?_eq_some.mp hd).1)
  | _ => simp_all [Sender.isConnecting, Sender.isAwaiting]

/-- An acceptance is delivered once the session is connected with it. -/
theorem intake_of_welcome {ignored : Prop} (hs : s.Sound) (hw : Welcomes (s.hears a) x)
    (hreach : s.Reaches x) : Intake s a ignored (s.apply a) := by
  obtain ⟨frames,hh,hans⟩ := hw
  obtain ⟨rfl,e,manager,deadline,expired,n,he,hsender,hx,hn⟩ := hears_eq_some.mp hh
  have hv : e.Valid := (hs.live e he).1.valid
  cases hmove : s.senderMove with
  | none =>
    have hnone := (senderTurn_of_awaiting hsender).symm.trans ((within_eq_none he).mp hmove)
    cases hn.symm.trans (awaitAnswer_eq_none.mp hnone).2.1
  | some s' =>
    have happly : s.apply (.move .sender) = s' := by simp [apply, move, hmove]
    obtain ⟨t,e',hanswer,rfl⟩ := senderMove_of_awaiting he hsender hmove
    obtain ⟨hturn,hnot⟩ := turn_awaitAnswer hv hsender hanswer
    obtain ⟨⟨session,hf⟩,hin,hreceived⟩ :=
      turn_of_acceptance hv hsender hx hn (Acceptance.ofFrames_eq_ok.mpr hans) hreach hturn hnot
    have ho : e'.isOver = false :=
      (hturn.valid hv).isOver_eq_false (.inl fun hended => by cases hf.symm.trans hended)
    rw [happly, settleEpisode_of_not_over ho]
    exact .greeted x ⟨frames,hh,hans⟩ hreach ⟨e',manager,session,rfl,hf⟩ hin hreceived

/-- The sender counts no reply. -/
theorem received_forward {manager : Nat} {session : Option Nat}
    (h : s.forward manager session e = some (t,e')) : t.received = s.received := by
  unfold forward at h
  split at h
  · cases h
    rfl
  · split at h
    · cases h
    · unfold put at h
      dsimp only at h
      split at h
      · split at h <;> cases h <;> rfl
      · cases h
        rfl

theorem received_of_reading (hv : e.Valid) (hr : e.receiver = .reading id)
    (h : s.senderTurn e = some (t,e')) : t.received = s.received := by
  have hc : e.sender.isConnecting = false := Bool.eq_false_iff.mpr fun hc => by
    rcases hv.connecting hc with hw | hw <;> cases hr.symm.trans hw
  unfold senderTurn at h
  cases hs : e.sender with
  | forwarding =>
    simp only [hs] at h
    exact received_forward h
  | ended => simp [hs] at h
  | _ => simp [hs, Sender.isConnecting] at hc

theorem incoming_senderTurn (hv : e.Valid) (he : s.episode = some e)
    (h : s.senderTurn e = some (t,e'))
    (hx : ∀ x, Welcomes (s.hears (.move .sender)) x → ¬ s.Reaches x) :
    t.incoming = s.incoming := by
  have hturn : Turn s e t e' := turn_senderTurn hv h
  cases hturn with
  | establish hsender hst _ hn ha hd =>
    refine absurd (fun hown => ?_) (hx _ (welcomes_of_receive he hsender hst hn ha))
    exact absurd hown (Acceptance.sessionAddress?_eq_none.mp hd)
  | establishOwn hsender hst _ hn ha _ hm =>
    refine absurd (fun _ => ?_) (hx _ (welcomes_of_receive he hsender hst hn ha))
    exact (Network.mode_receive hn).symm.trans hm
  | count hr =>
    have hreceived := received_of_reading hv hr h
    exact absurd hreceived (Nat.succ_ne_self _)
  | _ => simp [incoming, giveUp, Entry.isIncoming]

theorem incoming_watchdogTurn (h : s.watchdogTurn e = some (t,e')) : t.incoming = s.incoming := by
  unfold watchdogTurn at h
  split at h
  · split at h
    · cases h
      rfl
    · cases h
  · cases h

theorem incoming_overlookTurn (h : s.overlookTurn e = some (t,e')) : t.incoming = s.incoming := by
  unfold overlookTurn at h
  split at h
  · split at h
    · cases h
      rfl
    · cases h
  · cases h

/-! ## What comes in with an act -/

theorem incoming_execute (s : State) : s.execute.incoming = s.incoming := by
  unfold execute
  split <;> rfl

theorem incoming_within {turn : Episode → State → Option (State × Episode)}
    (hturn : ∀ e t e', s.episode = some e → turn e s = some (t,e') → t.incoming = s.incoming)
    (h : s.within turn = some s') : s'.incoming = s.incoming := by
  obtain ⟨e,t,e',he,ht,rfl⟩ := within_eq_some h
  rw [incoming_settleEpisode, hturn e t e' he ht]

theorem incoming_reconnectMove (h : s.reconnectMove = some s') : s'.incoming = s.incoming := by
  unfold reconnectMove at h
  split at h
  · cases h
    exact incoming_execute _
  · cases h

theorem incoming_admissionMove (h : s.admissionMove = some s') : s'.incoming = s.incoming := by
  unfold admissionMove at h
  split at h
  · split at h
    · cases h
      simp [incoming, push, log, Entry.isIncoming]
    · cases h
  · cases h

/-- With what is neither a reply nor an acceptance nothing comes in. -/
theorem incoming_apply (hs : s.Sound) (hr : (s.receives a).bind Received.reply? = none)
    (hx : ∀ x, Welcomes (s.hears a) x → ¬ s.Reaches x) : (s.apply a).incoming = s.incoming := by
  have hbeside (hi : a.isInner = false) : (s.apply a).incoming = s.incoming := by
    rcases (effect_apply hs.sane a).cases with ⟨_,_,_,ha,_⟩ | ⟨rfl,_⟩ | hb
    · cases hi.symm.trans ha
    · cases hi
    · exact incoming_of_isOutside hb.journal
  cases a with
  | move task =>
    cases h : s.move task with
    | none => simp [apply, h]
    | some s' =>
      have hv : s.apply (.move task) = s' := by simp [apply, h]
      rw [hv]
      cases task with
      | sender =>
        exact incoming_within
          (fun e _ _ he ht => incoming_senderTurn (hs.live e he).1.valid he ht hx) h
      | receiver => exact incoming_within (fun _ _ _ he ht => incoming_receiverTurn he ht hr) h
      | watchdog => exact incoming_within (fun _ _ _ _ ht => incoming_watchdogTurn ht) h
      | reconnect => exact incoming_reconnectMove h
      | admission => exact incoming_admissionMove h
  | overlook =>
    cases h : s.within overlookTurn with
    | none => simp [apply, overlook, h]
    | some s' =>
      have hv : s.apply .overlook = s' := by simp [apply, overlook, h]
      rw [hv]
      exact incoming_within (fun _ _ _ _ ht => incoming_overlookTurn ht) h
  | _ => exact hbeside rfl

theorem intake (hs : s.Sound) (a : Act) :
    Intake s a (s.suppressNext = true) (s.apply a) := by
  cases hr : (s.receives a).bind Received.reply? with
  | some payload => exact intake_of_reply hs hr
  | none =>
    by_cases hx : ∃ x, Welcomes (s.hears a) x ∧ s.Reaches x
    · obtain ⟨x,hw,hreach⟩ := hx
      exact intake_of_welcome hs hw hreach
    · have hx : ∀ x, Welcomes (s.hears a) x → ¬ s.Reaches x := fun x hw hreach =>
        hx ⟨x,hw,hreach⟩
      exact .nothing hr hx (incoming_apply hs hr hx)

/-! ## What is to be withheld -/

theorem suppressNext_trySend (o : Outbound) (s : State) :
    (s.trySend o).2.suppressNext = s.suppressNext := by
  have hr : s.requestSend.suppressNext = s.suppressNext :=
    (congrArg suppressNext (body_requestSend s) :)
  rcases s.trySend_cases o with ⟨_,h⟩ | ⟨_,_,_,h⟩ | ⟨_,h⟩ <;> rw [h]
  exacts [hr,hr]

theorem suppressNext_send (ticket : Nat) (o : Outbound) (s : State) :
    (s.send ticket o).2.suppressNext = s.suppressNext := by
  obtain ⟨waiting,h⟩ := send_eq ticket o s
  rw [h]
  exact suppressNext_trySend o s

end State

theorem Counts.counted {s t : State} (h : Counts s t) :
    ∃ payload, t.counted = s.counted ++ [payload] := by
  obtain ⟨payload,hj,_⟩ := h
  refine ⟨payload,?_⟩
  rw [State.counted, hj, List.filterMap_append, List.filterMap_append, List.append_assoc]
  refine congrArg (s.counted ++ payload :: ·) ?_
  split
  · rfl
  · exact State.counted_deliveries payload s

theorem Turn.suppressNext {s t : State} {e e' : Episode} (h : Turn s e t e') :
    t.suppressNext = s.suppressNext ∨ Counts s t := by
  cases h with
  | count => exact .inr ⟨_,rfl,rfl,rfl⟩
  | _ => exact .inl rfl

namespace State
variable {s t : State} {e e' : Episode} {a : Act} {acts : List Act} {n : Nat} {payload : String}

theorem counted_apply (hs : s.Sound) (a : Act) :
    (s.apply a).counted = s.counted ∨
      ∃ payload, (s.apply a).counted = s.counted ++ [payload] :=
  ((effect_apply hs.sane a).counts hs).imp_right Counts.counted

theorem Step.suppressNext {task : Task} (h : Step s task t) (hc : t.counted = s.counted) :
    t.suppressNext = s.suppressNext := by
  cases h with
  | @turn _ _ e' u _ _ hturn =>
    rw [counted_settleEpisode] at hc
    rcases hturn.suppressNext with hu | hcounts
    · exact (congrArg State.suppressNext (body_settleEpisode e' u) :).trans hu
    · obtain ⟨payload,hu⟩ := hcounts.counted
      simp [hu] at hc
  | revive =>
    unfold execute
    split <;> rfl
  | enqueue => rfl

theorem suppressNext_close (s : State) : s.close.suppressNext = s.suppressNext := by
  rcases s.body_close with h | h <;> exact (congrArg State.suppressNext h :)

/-- Counting a reply uses up what was asked for, and nothing else does. -/
theorem suppressNext_apply (hs : s.Sound) (a : Act) :
    (s.apply a).counted = s.counted ∧
        (s.apply a).suppressNext = (s.suppressNext || a.isIgnoring) ∨
      a.isIgnoring = false ∧ (s.apply a).suppressNext = false ∧
        (s.apply a).counted.length = s.counted.length + 1 := by
  rcases (effect_apply hs.sane a).counts hs with hc | hcounts
  · refine .inl ⟨hc,?_⟩
    have hkeep (hi : a.isIgnoring = false) (h : (s.apply a).suppressNext = s.suppressNext) :
        (s.apply a).suppressNext = (s.suppressNext || a.isIgnoring) := by
      rw [hi, Bool.or_false]
      exact h
    cases a with
    | move task =>
      refine hkeep rfl ?_
      cases h : s.move task with
      | none => simp [apply, h]
      | some s' =>
        have hv : s.apply (.move task) = s' := by simp [apply, h]
        rw [hv] at hc ⊢
        exact (step_move hs.sane h).suppressNext hc
    | overlook =>
      refine hkeep rfl ?_
      rcases step_overlook hs.sane with hv | hstep
      · exact congrArg State.suppressNext hv
      · exact hstep.suppressNext hc
    | send | disconnect => exact hkeep rfl (suppressNext_send ..)
    | sendIgnoringReply ticket o =>
      rw [Act.isIgnoring, Bool.or_true]
      exact suppressNext_send ticket o { s with suppressNext := true }
    | attempt o => exact hkeep rfl (suppressNext_trySend o s)
    | close => exact hkeep rfl (suppressNext_close s)
    | listen | network | tick | shutdown => exact hkeep rfl rfl
  · obtain ⟨payload,hlen⟩ := hcounts.counted
    obtain ⟨_,_,_,hflag⟩ := hcounts
    refine .inr ⟨?_,hflag,by rw [hlen, List.length_append, List.length_singleton]⟩
    cases a with
    | sendIgnoringReply ticket o =>
      rcases (effect_apply hs.sane (.sendIgnoringReply ticket o)).cases with
        ⟨_,_,_,ha,_⟩ | ⟨ha,_⟩ | hb
      · cases ha
      · cases ha
      · simp [counted_of_isOutside hb.journal] at hlen
    | _ => rfl

/-! ## When the application asked -/

theorem ignores_nil : ¬ s.Ignores [] n := by
  rintro ⟨l,_,_,_,h,_⟩
  cases l <;> cases h

theorem ignores_cons :
    s.Ignores (a :: acts) n ↔
      a.isIgnoring = true ∧ s.counted.length = n ∨ (s.apply a).Ignores acts n := by
  constructor
  · rintro ⟨l,ticket,o,l',h,hn⟩
    cases l with
    | nil =>
      obtain ⟨rfl,_⟩ := List.cons.inj h
      exact .inl ⟨rfl,hn⟩
    | cons b l =>
      obtain ⟨rfl,rfl⟩ := List.cons.inj h
      exact .inr ⟨l,ticket,o,l',rfl,hn⟩
  · rintro (⟨ha,hn⟩ | ⟨l,ticket,o,l',rfl,hn⟩)
    · cases a with
      | sendIgnoringReply ticket o => exact ⟨[],ticket,o,acts,rfl,hn⟩
      | _ => cases ha
    · exact ⟨a :: l,ticket,o,l',rfl,hn⟩

theorem ignores_append {l l' : List Act} :
    s.Ignores (l ++ l') n ↔ s.Ignores l n ∨ (s.run l).Ignores l' n := by
  induction l generalizing s with
  | nil => exact (or_iff_right ignores_nil).symm
  | cons a l ih => rw [List.cons_append, ignores_cons, ignores_cons, ih, or_assoc, run_cons]

theorem counted_prefix_run (hs : s.Sane) (acts : List Act) : s.counted <+: (s.run acts).counted :=
  (prefix_run hs acts).filterMap _

/-- What was asked for after a reply was counted is not about that reply. -/
theorem not_ignores_of_lt (hs : s.Sane) (h : n < s.counted.length) : ¬ s.Ignores acts n := by
  rintro ⟨l,_,_,_,_,hn⟩
  have hle := (counted_prefix_run hs l).length_le
  omega

/-- The next reply is to be withheld if the application has asked for that since the last one. -/
theorem suppressNext_run (hs : s.Sound) (h : s.suppressNext = false) (acts : List Act) :
    (s.run acts).suppressNext = true ↔ s.Ignores acts (s.run acts).counted.length := by
  induction acts using List.reverseRecOn with
  | nil => simp [run, h, ignores_nil]
  | append_singleton l a ih =>
    have hl : (s.run l).Sound := sound_run hs l
    have hv : s.run (l ++ [a]) = (s.run l).apply a := run_append s l [a]
    rw [hv, ignores_append, ignores_cons]
    rcases suppressNext_apply hl a with ⟨hc,hflag⟩ | ⟨ha,hflag,hlen⟩
    · simp [hc, hflag, ih, ignores_nil]
    · have hearlier : ¬ s.Ignores l ((s.run l).counted.length + 1) := by
        rintro ⟨l₁,ticket,o,l₂,rfl,hn⟩
        have hle := (counted_prefix_run (sound_run hs l₁).sane
          (.sendIgnoringReply ticket o :: l₂)).length_le
        rw [← run_append] at hle
        omega
      simp [ha, hflag, hlen, hearlier, ignores_nil]

theorem Intake.of_iff {p q : Prop} (h : Intake s a p t)
    (hpq : t.counted.length = s.counted.length + 1 → (p ↔ q)) : Intake s a q t := by
  have hlen {payload : String} {l : List Entry} (hl : l.filterMap Entry.counted? = [])
      (h : t.incoming = s.incoming ++ .counted payload :: l) :
      t.counted.length = s.counted.length + 1 := by
    rw [counted_eq, h, List.filterMap_append, counted_eq, List.length_append]
    simp [Entry.counted?, hl]
  cases h with
  | withheld payload hr hi h hn => exact .withheld payload hr ((hpq (hlen rfl h)).mp hi) h hn
  | delivered payload hr hi h hn =>
    have hlen := hlen (counted_deliveries payload s) h
    exact .delivered payload hr (fun hq => hi ((hpq hlen).mpr hq)) h hn
  | greeted x hx hreach hc h hn => exact .greeted x hx hreach hc h hn
  | nothing hr hx h => exact .nothing hr hx h

/-- What comes in with one of the acts of a run that begins with nothing to be withheld. -/
theorem intake_run (hs : s.Sound) (h : s.suppressNext = false) {l l' : List Act} :
    Intake (s.run l) a (s.Ignores (l ++ a :: l') (s.run l).counted.length)
      ((s.run l).apply a) := by
  have hl : (s.run l).Sound := sound_run hs l
  refine (intake hl a).of_iff fun hlen => ?_
  rw [suppressNext_run hs h, ignores_append, ignores_cons]
  have ha : a.isIgnoring = false := by
    rcases suppressNext_apply hl a with ⟨hc,_⟩ | ⟨ha,_⟩
    · rw [hc] at hlen
      omega
    · exact ha
  have hlater : ¬ ((s.run l).apply a).Ignores l' (s.run l).counted.length :=
    not_ignores_of_lt (hl.apply a).sane (by omega)
  simp [ha, hlater]

/-! ## The replies by number -/

theorem exists_counts (hs : s.Sound) (h : s.counted = []) {acts : List Act}
    (hp : (s.run acts).counted[n]? = some payload) :
    ∃ l a l', acts = l ++ a :: l' ∧ (s.run l).counted.length = n ∧
      ((s.run l).apply a).counted = (s.run l).counted ++ [payload] := by
  induction acts using List.reverseRecOn with
  | nil => simp [run, h] at hp
  | append_singleton l a ih =>
    have hv : s.run (l ++ [a]) = (s.run l).apply a := run_append s l [a]
    have hearlier (hp : (s.run l).counted[n]? = some payload) :
        ∃ l₁ b l₂, l ++ [a] = l₁ ++ b :: l₂ ∧ (s.run l₁).counted.length = n ∧
          ((s.run l₁).apply b).counted = (s.run l₁).counted ++ [payload] := by
      obtain ⟨l₁,b,l₂,rfl,hn,hc⟩ := ih hp
      exact ⟨l₁,b,l₂ ++ [a],by simp,hn,hc⟩
    rw [hv] at hp
    rcases counted_apply (sound_run hs l) a with hc | ⟨last,hc⟩
    · exact hearlier (hc ▸ hp)
    · rw [hc] at hp
      rcases Nat.lt_or_ge n (s.run l).counted.length with hn | hn
      · exact hearlier (by rwa [List.getElem?_append_left hn] at hp)
      · obtain ⟨hz,rfl⟩ := List.getElem?_eq_some_iff.mp
          ((List.getElem?_append_right hn).symm.trans hp)
        rw [List.length_singleton] at hz
        exact ⟨l,a,[],rfl,by omega,by simpa using hc⟩

/-- A reply is counted with one act only. -/
theorem eq_of_counts (hs : s.Sound) {l l' m m' : List Act} {b : Act}
    (h : l ++ a :: l' = m ++ b :: m')
    (hl : ((s.run l).apply a).counted.length = (s.run l).counted.length + 1)
    (hm : ((s.run m).apply b).counted.length = (s.run m).counted.length + 1)
    (hn : (s.run l).counted.length = (s.run m).counted.length) : l = m := by
  -- the one that is longer goes on after the other's reply was counted
  have hshort {l l' m : List Act} {a : Act} (hm : m = l ++ a :: l')
      (hl : ((s.run l).apply a).counted.length = (s.run l).counted.length + 1)
      (hn : (s.run l).counted.length = (s.run m).counted.length) : False := by
    have hgrows := counted_prefix_run ((sound_run hs l).apply a).sane l'
    rw [hm, run_append, run_cons] at hn
    have hle := hgrows.length_le
    omega
  rcases List.append_eq_append_iff.mp h with ⟨between,rfl,hb⟩ | ⟨between,rfl,hb⟩
  · cases between with
    | nil => exact (List.append_nil l).symm
    | cons c between =>
      obtain ⟨rfl,_⟩ := List.cons.inj hb
      exact (hshort rfl hl hn).elim
  · cases between with
    | nil => exact List.append_nil m
    | cons c between =>
      obtain ⟨rfl,_⟩ := List.cons.inj hb
      exact (hshort rfl hm hn.symm).elim

end State

/-! ## The end of an episode -/

theorem Turn.isOver_of_hungUp {s t : State} {e e' : Episode} (h : Turn s e t e') (hv : e.Valid)
    (hh : e.HungUp) : e'.isOver = true := by
  obtain ⟨⟨manager,session,hs⟩,hr,hst⟩ := hh
  have hx : s.isStopped e = true := by rw [State.isStopped, hst]; rfl
  have hv' : e'.Valid := h.valid hv
  cases h with
  | halt => exact hv'.isOver_iff.mpr ⟨rfl,hr⟩
  | _ => simp_all [Sender.isConnecting]

namespace State
variable {s t : State} {e : Episode} {id : Nat} {r : Received} {n : Network} {during : List Act}

/-- As long as the episode lasts, nothing comes in any more. -/
theorem Lasts.hungUp (hl : s.Lasts during) (hs : s.Sound) (he : s.episode = some e)
    (hh : e.HungUp) :
    (s.run during).episode = some e ∧ (s.run during).incoming = s.incoming := by
  induction during generalizing s with
  | nil => exact ⟨he,rfl⟩
  | cons a during ih =>
    obtain ⟨_,hl'⟩ := lasts_cons.mp hl
    obtain ⟨he',hin⟩ : (s.apply a).episode = some e ∧ (s.apply a).incoming = s.incoming := by
      rcases (effect_apply hs.sane a).cases with ⟨e₀,e',u,_,he₀,hturn,hv⟩ | ⟨_,hd,_⟩ | hb
      · obtain rfl : e = e₀ := Option.some.inj (he.symm.trans he₀)
        have ho := hturn.isOver_of_hungUp (hs.live e he).1.valid hh
        have hlive := hl'.isSome
        rw [hv, settleEpisode_of_over ho, episode_onReleased] at hlive
        cases hlive
      · cases he.symm.trans (hs.idle_of_due hd)
      · exact ⟨hb.episode.trans he,incoming_of_isOutside hb.journal⟩
    obtain ⟨hlast,hnone⟩ := ih hl' (hs.apply a) he'
    exact ⟨hlast,hnone.trans hin⟩

/-- The sender's move ends an episode whose receiver has ended. -/
theorem apply_sender_of_hungUp (hs : s.Sound) (he : s.episode = some e) (hh : e.HungUp) :
    (s.apply (.move .sender)).episode = none := by
  obtain ⟨manager,session,hsender⟩ := hh.sender
  have hv : e.Valid := (hs.live e he).1.valid
  have hx : s.isStopped e = true := by rw [isStopped, hh.stopped]; rfl
  have hsome := senderTurn_of_stopped hx fun hended => by cases hsender.symm.trans hended
  obtain ⟨⟨t,e'⟩,h⟩ := Option.ne_none_iff_exists'.mp hsome
  have happly : s.apply (.move .sender) = t.settleEpisode e' := by
    simp [apply, move, senderMove, within_of_live he, h]
  rw [happly, settleEpisode_of_over ((turn_senderTurn hv h).isOver_of_hungUp hv hh),
    episode_onReleased]

/-- The message that ends the reading is not counted, and nothing more comes in. -/
theorem hungUp_of_isLast (hs : s.Sound) (h : s.receives (.move .receiver) = some r)
    (hlast : isLast r = true) :
    (s.apply (.move .receiver)).incoming = s.incoming ∧
      (s.apply (.move .receiver)).received = s.received ∧
      ∃ e, (s.apply (.move .receiver)).episode = some e ∧ e.HungUp := by
  obtain ⟨_,e,id,n,he,hread,hx,hn⟩ := receives_eq_some.mp h
  have hv : e.Valid := (hs.live e he).1.valid
  have hst : e.stopped = false := (Bool.or_eq_false_iff.mp hx).1
  obtain ⟨manager,session,hsender⟩ :
      ∃ manager session, e.sender = .forwarding manager session := by
    cases hsender : e.sender with
    | forwarding manager session => exact ⟨manager,session,rfl⟩
    | ended => cases hst.symm.trans (hv.stopped.mpr (.inl hsender))
    | _ =>
      have hc : e.sender.isConnecting = true := by rw [hsender]; rfl
      cases hread.symm.trans (hv.waiting hc hst)
  have hturn : Turn s e _ e.hangUp := .finish hread hx hn hlast
  have ho : e.hangUp.isOver = false :=
    (hturn.valid hv).isOver_eq_false (.inl fun hended => by cases hsender.symm.trans hended)
  have hend : s.read id e = some ({ s with network := n }.endReading id e) := by
    rw [read_eq hx hn, reply?_of_isLast hlast]
    exact congrArg some (if_pos hlast)
  rw [apply_receiver he hread hend]
  refine ⟨incoming_settleEpisode ..,received_settleEpisode ..,e.hangUp,?_,
    ⟨⟨manager,session,hsender⟩,rfl,rfl⟩⟩
  exact congrArg State.episode (settleEpisode_of_not_over ho _)

theorem apply_of_malformed {frames : Message} {v : Violation} (hs : s.Sound)
    (h : s.receives (.move .receiver) = some (.message frames))
    (hv : Wire.ClientReply.ofFrames frames = .error v) :
    ∃ network, s.apply (.move .receiver) = { s with network } := by
  obtain ⟨_,e,id,n,he,hread,hx,hn⟩ := receives_eq_some.mp h
  have hskip : s.read id e = some ({ s with network := n },e) := by
    simp [read_eq hx hn, Received.reply?, isLast, hv]
  exact ⟨n,apply_receiver_self hs he hread hskip rfl⟩

/-- The n-th reply that is counted is counted with one act. It is withheld from the listener if and
only if the application has asked for that after the reply before it was counted, and else it is
handed to the listener at once; an answer of the session manager is handed to the listener if with
it the session is connected, and is not counted; and nothing else is. What the receiver takes that
is no reply changes nothing. The stop payload ends the episode: nothing more comes in while it
lasts, and it is over when the sender moves. -/
theorem replies_withheld_iff_ignored (c : Settings) (m : Mode) (monitor : Monitor)
    (listener : Option Nat) (acts : List Act) :
    let s := start c m monitor listener
    let t := s.run acts
    (∀ l a l', acts = l ++ a :: l' →
      Intake (s.run l) a (s.Ignores acts (s.run l).counted.length) ((s.run l).apply a)) ∧
    (∀ n payload, t.counted[n]? = some payload → ∃! l, ∃ a l', acts = l ++ a :: l' ∧
      (s.run l).counted.length = n ∧
      ((s.run l).apply a).counted = (s.run l).counted ++ [payload]) ∧
    ∀ frames, t.receives (.move .receiver) = some (.message frames) →
      let u := t.apply (.move .receiver)
      (∀ v, Wire.ClientReply.ofFrames frames = .error v → ∃ network, u = { t with network }) ∧
      ∀ r, Wire.ClientReply.ofFrames frames = .ok r →
        r.payload = SessionMessage.stopPayload →
        u.incoming = t.incoming ∧ u.received = t.received ∧ u.episode.isSome = true ∧
        ∀ during, u.Lasts during →
          (u.run during).incoming = u.incoming ∧
            ((u.run during).apply (.move .sender)).episode = none := by
  intro s t
  have hs : s.Sound := sound_start ..
  have ht : t.Sound := sound_run hs acts
  have hflag : s.suppressNext = false := by
    simp only [s, start, build]
    unfold execute
    split <;> rfl
  have hcounted : s.counted = [] := by rw [counted, journal_start]; rfl
  refine ⟨fun l a l' h => h ▸ intake_run hs hflag,fun n payload hp => ?_,fun frames hr => ?_⟩
  · obtain ⟨l,a,l',rfl,hn,hc⟩ := exists_counts hs hcounted hp
    refine ⟨l,⟨a,l',rfl,hn,hc⟩,?_⟩
    rintro l₁ ⟨b,l₁',h,hn₁,hc₁⟩
    have hone {l l' : List String} (h : l' = l ++ [payload]) : l'.length = l.length + 1 := by
      rw [h, List.length_append, List.length_singleton]
    exact (eq_of_counts hs h (hone hc) (hone hc₁) (hn.trans hn₁.symm)).symm
  · refine ⟨fun v hv => apply_of_malformed ht hr hv,fun r hok hstop => ?_⟩
    have hlast : isLast (.message frames) = true := by simp [isLast, hok, hstop]
    obtain ⟨hin,hreceived,e,he,hh⟩ := hungUp_of_isLast ht hr hlast
    have hu : (t.apply (.move .receiver)).Sound := ht.apply _
    refine ⟨hin,hreceived,by rw [he]; rfl,fun during hl => ?_⟩
    obtain ⟨he',hnone⟩ := hl.hungUp hu he hh
    exact ⟨hnone,apply_sender_of_hungUp (sound_run hu during) he' hh⟩

/-- Of two replies the first is withheld, since the application has asked for that. -/
theorem replies_withheld_iff_ignored_first :
    let answer : Arrival := .message (Wire.clientMessage (.ofText "session-manager")
      [.ofText "[\"SESSION_INITIATED\",\"client-1\"]"])
    let reply (text : String) : Arrival :=
      .message (Wire.clientMessage (.ofText "echo") [.ofText text])
    let before : List Act :=
      [.move .sender, .network (.offer 0 answer), .move .sender, .move .receiver,
        .sendIgnoringReply 0 ⟨"echo","ping"⟩, .network (.offer 0 (reply "pong"))]
    let later : List Act := [.network (.offer 0 (reply "again")), .move .receiver]
    let s := start .sample .accept {} (some 0)
    (s.run (before ++ .move .receiver :: later)).counted = ["pong","again"] ∧
      ((s.run before).apply (.move .receiver)).incoming =
        (s.run before).incoming ++ [.counted "pong"] := by
  intro answer reply before later s
  have hall := replies_withheld_iff_ignored .sample .accept {} (some 0)
    (before ++ .move .receiver :: later)
  have hintake := hall.1 before (.move .receiver) later rfl
  have hnone : (s.run before).counted.length = 0 := by decide +kernel
  rw [hnone] at hintake
  have hasked : s.Ignores (before ++ .move .receiver :: later) 0 :=
    ⟨before.take 4,0,_,_,rfl,by decide +kernel⟩
  have htaken : ((s.run before).receives (.move .receiver)).bind Received.reply? = some "pong" := by
    decide +kernel
  refine ⟨by decide +kernel,?_⟩
  cases hintake with
  | withheld payload hr _ h =>
    obtain rfl := Option.some.inj (htaken.symm.trans hr)
    exact h
  | delivered _ _ hi => exact absurd hasked hi
  | greeted x hx =>
    obtain ⟨_,hh,_⟩ := hx
    cases (hears_eq_some.mp hh).1
  | nothing hr => cases htaken.symm.trans hr

/-- With these answers of the session manager the session is not connected, and none of them is
handed to the listener: an acceptance naming an address that cannot be reached, a rejection, and
what is no reply, with which the episode ends. -/
theorem answers_undelivered :
    let s := (start .sample .accept {} (some 0)).run [.move .sender]
    let acceptance := Wire.clientMessage (.ofText "session-manager")
      [.ofText "[\"SESSION_INITIATED\",\"client-1\",\"\",\"session:9000\"]"]
    let rejection := Wire.clientMessage (.ofText "session-manager")
      [.ofText "[\"RESPONSE_ALREADY_CONNECTED\",\"client-1\"]"]
    let t := s.run [.network (.mode .refuse), .network (.offer 0 (.message acceptance))]
    let u := s.apply (.network (.offer 0 (.message rejection)))
    let w := s.apply (.network (.offer 0 (.message [])))
    (t.hears (.move .sender) = some (.message acceptance) ∧
      (Acceptance.ofFrames acceptance).toOption.isSome = true ∧
      (t.apply (.move .sender)).incoming = [] ∧
      (t.apply (.move .sender)).settle.incoming = [] ∧
      (t.apply (.move .sender)).settle.isQuiescent = true) ∧
    (u.hears (.move .sender) = some (.message rejection) ∧
      (u.apply (.move .sender)).settle.incoming = [] ∧
      (u.apply (.move .sender)).settle.isQuiescent = true) ∧
    (w.hears (.move .sender) = some (.message []) ∧
      (w.run [.move .sender, .move .receiver]).episode = none) := by
  decide +kernel

end State
end Majordomo.Client
