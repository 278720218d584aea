import Majordomo.Proofs.Client.Episodes
import Majordomo.Proofs.Client.Halves

/-! # Which replies are read

In an episode that is connected the receiver reads one connection: that of the session, if it has
one of its own, and else that to the session manager. What arrives there is taken in order and
every reply is counted once. Beside a connection of its own the session still sends to the session
manager, but nobody reads what the session manager has to say.
-/
namespace Majordomo

def Received.reply? : Received → Option String
  | .message frames =>
    match Wire.ClientReply.ofFrames frames with
    | .ok r => if r.payload = SessionMessage.stopPayload then none else some r.payload
    | .error _ => none
  | .failed _ | .ended => none

def Arrival.reply? (a : Arrival) : Option String := a.received.reply?

end Majordomo

namespace Majordomo.Client

def Entry.counted? : Entry → Option String
  | .counted payload => some payload
  | _ => none

theorem Entry.counted?_of_isOutside {x : Entry} (h : x.isOutside = true) : x.counted? = none := by
  cases x with
  | counted => cases h
  | _ => rfl

structure Episode.Reads (e : Episode) (id : Nat) : Prop where
  sender : e.sender.isConnecting = false
  receiver : e.receiver = .handed id ∨ e.receiver = .reading id ∨ e.receiver = .ended

def Act.offers (id : Nat) (n : Network) : Act → List Arrival
  | .network event => n.offers id event
  | _ => []

namespace State

def counted (s : State) : List String := s.journal.filterMap Entry.counted?

def offered (id : Nat) (s : State) : List Act → List Arrival
  | [] => []
  | a :: acts => a.offers id s.network ++ offered id (s.apply a) acts

theorem counted_of_isOutside {s t : State} (h : Grows Entry.isOutside s.journal t.journal) :
    t.counted = s.counted :=
  h.filterMap_eq fun _ => Entry.counted?_of_isOutside

/-- From `s` to `t` the connection `id` has been read, and `offered` has arrived. -/
structure Reads (id : Nat) (offered : Nat → List Arrival) (s t : State) : Prop where
  taken : ∃ taken, s.network.unread id ++ offered id = taken ++ t.network.unread id ∧
    t.counted = s.counted ++ taken.filterMap Arrival.reply? ∧
    t.received = s.received + (taken.filterMap Arrival.reply?).length
  others : ∀ k, k ≠ id → t.network.unread k = s.network.unread k ++ offered k
  links : t.network.links.length = s.network.links.length

theorem Reads.trans {id : Nat} {offered offered' : Nat → List Arrival} {s t u : State}
    (h : Reads id offered s t) (h' : Reads id offered' t u) :
    Reads id (fun k => offered k ++ offered' k) s u := by
  obtain ⟨taken,hu,hc,hr⟩ := h.taken
  obtain ⟨taken',hu',hc',hr'⟩ := h'.taken
  refine ⟨⟨taken ++ taken',?_,?_,?_⟩,fun k hk => ?_,h'.links.trans h.links⟩
  · rw [← List.append_assoc, hu, List.append_assoc, hu', List.append_assoc]
  · rw [hc', hc, List.filterMap_append, List.append_assoc]
  · rw [hr', hr, List.filterMap_append, List.length_append, Nat.add_assoc]
  · rw [h'.others k hk, h.others k hk, List.append_assoc]

/-- Nothing is taken. -/
theorem Reads.of_unread {id : Nat} {offered : Nat → List Arrival} {s t : State}
    (hu : ∀ k, t.network.unread k = s.network.unread k ++ offered k)
    (hn : t.network.links.length = s.network.links.length) (hc : t.counted = s.counted)
    (hr : t.received = s.received) : Reads id offered s t := by
  refine ⟨⟨[],(hu id).symm,?_,hr⟩,fun k _ => hu k,hn⟩
  rw [hc]
  exact (List.append_nil _).symm

/-- What has arrived first is taken. -/
theorem Reads.of_receive {id : Nat} {s t : State} {r : Received} {n : Network}
    (hn : s.network.receive id = some (r,n))
    (hu : ∀ k, t.network.unread k = n.unread k)
    (hl : t.network.links.length = n.links.length)
    (hc : t.counted = s.counted ++ r.reply?.toList)
    (hr : t.received = s.received + r.reply?.toList.length) :
    Reads id (fun _ => []) s t := by
  have hothers (k : Nat) (hk : k ≠ id) : t.network.unread k = s.network.unread k ++ [] := by
    rw [hu k, Network.unread_receive_of_ne hn hk, List.append_nil]
  refine ⟨?_,hothers,hl.trans (Network.links_receive_length hn)⟩
  rcases Network.unread_receive hn with ⟨a,rfl,ha⟩ | ⟨rfl,rfl⟩
  · have hone : [a].filterMap Arrival.reply? = a.received.reply?.toList := by
      cases hx : a.received.reply? <;> simp [Arrival.reply?, hx]
    exact ⟨[a],by rw [ha, hu, List.append_nil]; rfl,by rw [hone, hc],by rw [hone, hr]⟩
  · exact ⟨[],by rw [hu, List.append_nil]; rfl,hc,hr⟩

end State

section Turn
variable {s t : State} {e e' : Episode} {id : Nat}

/-- What ends the reading is not counted. -/
theorem reply?_of_isLast {r : Received} (h : isLast r = true) : r.reply? = none := by
  cases r with
  | message frames =>
    cases hf : Wire.ClientReply.ofFrames frames with
    | error v => simp [Received.reply?, hf]
    | ok r =>
      have hstop : r.payload = SessionMessage.stopPayload := by simpa [isLast, hf] using h
      simp [Received.reply?, hf, hstop]
  | failed | ended => rfl

theorem State.counted_deliveries (payload : String) (s : State) :
    (s.deliveries payload).filterMap Entry.counted? = [] := by
  unfold State.deliveries
  cases s.listener <;> rfl

/-- What a move of a task takes. -/
theorem Turn.reads (h : Turn s e t e') (hr : e.Reads id) :
    State.Reads id (fun _ => []) s t ∧ e'.Reads id := by
  have hnone {n : Network} {ids : List Nat} (k : Nat) :
      (ids.foldl (fun n id => n.dropSink id) n).unread k = n.unread k ++ [] := by
    rw [List.append_nil]
    exact Network.foldl_keeps (fun n id => n.unread_dropSink id k) ids n
  have hreading {id' : Nat} (hx : e.receiver = .reading id') : id' = id := by
    rcases hr.receiver with hx' | hx' | hx' <;> cases hx.symm.trans hx'
    rfl
  cases h with
  | halt hs =>
    exact ⟨.of_unread hnone (Network.links_foldl_dropSink_length ..) rfl rfl,⟨rfl,hr.receiver⟩⟩
  | lose hs =>
    refine ⟨.of_unread hnone (Network.links_foldl_dropSink_length ..) ?_ rfl,⟨rfl,hr.receiver⟩⟩
    simp [State.counted, Entry.counted?]
  | trip hs _ _ hn =>
    refine ⟨.of_unread (fun k => ?_) ?_ ?_ rfl,⟨rfl,hr.receiver⟩⟩
    · rw [← Network.unread_send hn k]
      exact hnone k
    · exact (Network.links_foldl_dropSink_length ..).trans (Network.links_send_length hn)
    · simp [State.counted, Entry.counted?]
  | write hs _ _ hn =>
    refine ⟨.of_unread (fun k => ?_) (Network.links_send_length hn) ?_ rfl,hr⟩
    · rw [List.append_nil]
      exact Network.unread_send hn k
    · simp [State.counted, Entry.counted?]
  | excuse hx =>
    rcases hr.receiver with hx' | hx' | hx' <;> cases hx.symm.trans hx'
  | overlook hx | desist hx =>
    refine ⟨.of_unread (fun k => ?_) (Network.links_update_length ..) rfl rfl,
      ⟨hr.sender,.inr (.inr rfl)⟩⟩
    rw [List.append_nil]
    exact Network.unread_dropStream ..
  | accept hx =>
    refine ⟨.of_unread (fun k => (List.append_nil _).symm) rfl rfl rfl,⟨hr.sender,.inr (.inl ?_)⟩⟩
    rcases hr.receiver with hx' | hx' | hx' <;> cases hx.symm.trans hx'
    rfl
  | finish hx _ hn hl =>
    obtain rfl := hreading hx
    have hnot := reply?_of_isLast hl
    refine ⟨.of_receive hn (fun k => ?_) (Network.links_update_length ..) ?_ ?_,
      ⟨hr.sender,.inr (.inr rfl)⟩⟩
    · exact Network.unread_dropStream ..
    · rw [hnot]
      exact (List.append_nil _).symm
    · rw [hnot]
      rfl
  | @skip _ frames _ _ hx _ hn hv =>
    obtain rfl := hreading hx
    have hnot : (Received.message frames).reply? = none := by simp [Received.reply?, hv]
    refine ⟨.of_receive hn (fun _ => rfl) rfl ?_ ?_,hr⟩
    · rw [hnot]
      exact (List.append_nil _).symm
    · rw [hnot]
      rfl
  | @count _ frames r _ hx _ hn hf hl =>
    obtain rfl := hreading hx
    have hreply : (Received.message frames).reply? = some r.payload := by
      simp [Received.reply?, hf, hl]
    refine ⟨.of_receive hn (fun _ => rfl) rfl ?_ ?_,hr⟩
    · rw [hreply]
      simp only [State.counted, List.filterMap_append]
      split <;> simp [State.counted_deliveries, Entry.counted?]
    · rw [hreply]
      rfl
  | _ =>
    have hs := hr.sender
    simp_all [Sender.isConnecting]

end Turn

namespace State
variable {s t : State} {e e' : Episode} {a : Act} {id : Nat}

theorem unread_onNetwork (id : Nat) (a : Act) (s : State) :
    (a.onNetwork s.network).unread id = s.network.unread id ++ a.offers id s.network := by
  cases a with
  | network event => exact Network.unread_onEvent s.network event id
  | _ => exact (List.append_nil _).symm

theorem links_onNetwork (a : Act) (n : Network) :
    (a.onNetwork n).links.length = n.links.length := by
  cases a with
  | network event => exact Network.links_onEvent_length n event
  | _ => rfl

theorem Unmoved.reads (h : Unmoved s a t) (id : Nat) : Reads id (a.offers · s.network) s t := by
  refine .of_unread (fun k => ?_) ?_ ?_ (congrArg State.received h.core :)
  · rw [h.network]
    exact unread_onNetwork k a s
  · rw [h.network]
    exact links_onNetwork a s.network
  · exact counted_of_isOutside h.beside.journal

theorem offers_of_isInner (ha : a.isInner = true) (n : Network) :
    (a.offers · n) = fun _ => [] := by
  cases a with
  | network => cases ha
  | _ => rfl

/-- What is read in one act, while the episode lasts. -/
theorem Effect.reads (h : Effect s a t) (hs : s.Sound) (he : s.episode = some e)
    (hr : e.Reads id) (hl : t.episode.isSome = true) :
    Reads id (a.offers · s.network) s t ∧ ∃ e', t.episode = some e' ∧ e'.Reads id := by
  cases h with
  | @turn _ e₀ e' u ha he₀ hturn =>
    obtain rfl : e = e₀ := Option.some.inj (he.symm.trans he₀)
    obtain ⟨hu,hr'⟩ := hturn.reads hr
    rw [offers_of_isInner ha]
    cases ho : e'.isOver with
    | false =>
      rw [settleEpisode_of_not_over ho]
      exact ⟨⟨hu.taken,hu.others,hu.links⟩,e',rfl,hr'⟩
    | true =>
      rw [settleEpisode_of_over ho, episode_onReleased] at hl
      cases hl
  | revive hd => cases he.symm.trans (hs.idle_of_due hd)
  | request _ _ hu =>
    rw [requestSend_of_live he] at hu
    have hreads := hu.reads id
    exact ⟨⟨hreads.taken,hreads.others,hreads.links⟩,e,hu.episode.trans he,hr⟩
  | close =>
    have hclose : Reads id (fun _ => []) s s.close := by
      rcases Bool.eq_false_or_eq_true s.closing with hc | hc
      · rw [close_of_closing hc]
        exact .of_unread (fun _ => (List.append_nil _).symm) rfl rfl rfl
      · rw [close_of_live hc he]
        exact .of_unread (fun _ => (List.append_nil _).symm) rfl rfl rfl
    exact ⟨hclose,e,(episode_close s).trans he,hr⟩
  | pass _ _ hu => exact ⟨hu.reads id,e,hu.episode.trans he,hr⟩

/-- What is read while an episode lasts. -/
theorem Lasts.reads {acts : List Act} (hl : s.Lasts acts) (hs : s.Sound)
    (he : s.episode = some e) (hr : e.Reads id) :
    Reads id (s.offered · acts) s (s.run acts) ∧
      ∃ e', (s.run acts).episode = some e' ∧ e'.Reads id := by
  induction acts generalizing s e with
  | nil =>
    exact ⟨.of_unread (fun _ => (List.append_nil _).symm) rfl rfl rfl,e,he,hr⟩
  | cons a acts ih =>
    obtain ⟨_,hl'⟩ := lasts_cons.mp hl
    obtain ⟨hone,e₁,he₁,hr₁⟩ := (effect_apply hs.sane a).reads hs he hr hl'.isSome
    obtain ⟨hmore,hlast⟩ := ih hl' (hs.apply a) he₁ hr₁
    exact ⟨hone.trans hmore,hlast⟩

theorem receive_of_read_none (h : s.read id e = none) : s.network.receive id = none := by
  unfold read at h
  split at h
  · cases h
  · split at h
    · dsimp only at h
      split at h
      · cases h
      · split at h <;> cases h
    · cases h
    · assumption

/-- Where no task can move, nothing is left to be read. -/
theorem unread_of_quiescent (hs : s.Sound) (he : s.episode = some e) (hr : e.Reads id)
    (hq : s.isQuiescent = true) : s.network.unread id = [] := by
  obtain ⟨hl,ho⟩ := hs.live e he
  have hx : s.isStopped e = false := not_isStopped_of_quiescent hq he hl.valid ho
  have hmove : s.receiverTurn e = none := (within_eq_none he).mp (isQuiescent_iff.mp hq .receiver)
  have hst : e.stopped = false := (Bool.or_eq_false_iff.mp hx).1
  unfold receiverTurn at hmove
  rcases hr.receiver with hreceiver | hreceiver | hreceiver
  · rw [hreceiver] at hmove
    cases hmove
  · rw [hreceiver] at hmove
    exact Network.unread_of_receive_none (receive_of_read_none hmove)
  · cases hst.symm.trans (hl.valid.stopped.mpr (.inr hreceiver))

end State

/-! ## Beside a connection of its own -/

def Episode.Placed (e : Episode) (n : Network) : Prop :=
  ∀ manager own, e.sender = .forwarding manager (some own) →
    manager < own ∧ own < n.links.length

theorem Turn.placed {s t : State} {e e' : Episode} (h : Turn s e t e')
    (hp : e.Placed s.network) : e'.Placed t.network := by
  -- a move that does not establish the session keeps its connections
  have hkeep (hl : t.network.links.length = s.network.links.length)
      (hs : ∀ manager own, e'.sender = .forwarding manager (some own) → e'.sender = e.sender) :
      e'.Placed t.network := fun manager own hx => by
    rw [hl]
    exact hp manager own ((hs manager own hx).symm.trans hx)
  cases h with
  | establishOwn _ _ _ hr =>
    intro manager own hs
    obtain ⟨rfl,hown⟩ := Sender.forwarding.inj hs
    obtain rfl := Option.some.inj hown
    refine ⟨?_,by simp [Network.dropStream]⟩
    rw [Network.links_receive_length hr]
    exact Network.lt_of_receive hr
  | write _ _ _ hn => exact hkeep (Network.links_send_length hn) fun _ _ _ => rfl
  | skip _ _ hn | count _ _ hn => exact hkeep (Network.links_receive_length hn) fun _ _ _ => rfl
  | finish _ _ hn =>
    refine hkeep ?_ fun _ _ _ => rfl
    exact (Network.links_update_length ..).trans (Network.links_receive_length hn)
  | overlook | desist => exact hkeep (Network.links_update_length ..) fun _ _ _ => rfl
  | excuse | accept => exact hp
  | _ =>
    intro manager own hs
    cases hs

namespace State
variable {s s' t : State} {e e' : Episode} {a : Act}

def Placed (s : State) : Prop := ∀ e, s.episode = some e → e.Placed s.network

theorem Placed.of_same (h : s.Placed) (he : s'.episode = s.episode)
    (hn : s'.network.links.length = s.network.links.length) : s'.Placed := by
  intro e hx manager own hs
  rw [hn]
  exact h e (he ▸ hx) manager own hs

theorem placed_of_idle (h : s.episode = none) : s.Placed := by
  intro e he
  cases h.symm.trans he

theorem Change.placed (h : Change s s') (hp : s.Placed) : s'.Placed := by
  cases h with
  | step h =>
    cases h with
    | @turn _ e e' u _ he ht =>
      have hturn : e'.Placed u.network := ht.placed (hp e he)
      cases ho : e'.isOver with
      | false =>
        rw [settleEpisode_of_not_over ho]
        exact fun _ hx => Option.some.inj hx ▸ hturn
      | true =>
        rw [settleEpisode_of_over ho]
        exact placed_of_idle (episode_onReleased ..)
    | revive =>
      unfold execute
      split
      · intro e he
        obtain rfl := Option.some.inj he
        exact nofun
      · exact hp
    | enqueue => exact hp
  | request =>
    have hn : s.requestSend.network = s.network := (congrArg State.network (body_requestSend s) :)
    exact hp.of_same (episode_requestSend s) (by rw [hn])
  | network event => exact hp.of_same rfl (Network.links_onEvent_length s.network event)
  | push | wait | suppress | listen | tick | shutdown => exact hp

theorem placed_run (hs : s.Sane) (h : s.Placed) (acts : List Act) : (s.run acts).Placed :=
  run_invariant (fun _ _ _ hc hp => hc.placed hp)
    (fun _ s hp => hp.of_same (episode_close s) (by rw [network_close])) hs h

theorem placed_start (c : Settings) (m : Mode) (monitor : Monitor) (listener : Option Nat) :
    (start c m monitor listener).Placed := by
  intro e he
  have hfresh : (start c m monitor listener).Fresh := fresh_start (by rw [he]; rfl)
  obtain rfl : ({} : Episode) = e := Option.some.inj (hfresh.episode.symm.trans he)
  exact nofun

/-- In an episode whose session has the connection `own`, nobody reads what the session manager
has to say over the connection `manager`. -/
structure Deaf (manager own : Nat) (s : State) : Prop where
  sound : s.Sound
  tidy : s.Tidy
  ne : manager ≠ own
  lt : manager < s.network.links.length
  live : ∃ e, s.episode = some e ∧ e.Reads own

/-- The far end learns that nobody reads. -/
theorem Deaf.onEvent_offer {manager own : Nat} (h : Deaf manager own s) (x : Arrival) :
    s.network.onEvent (.offer manager x) = (.gone,s.network) := by
  obtain ⟨e,he,hr⟩ := h.live
  refine Network.onEvent_offer_of_given_up ?_ h.lt x
  refine Bool.eq_false_iff.mpr fun hk => ?_
  have hm : manager ∈ e.streams := (h.tidy.live e he).stream manager hk
  have hsender := hr.sender
  have hne := h.ne
  cases hs : e.sender <;> rcases hr.receiver with hx | hx | hx <;>
    simp_all [Episode.streams, Sender.streams, Receiver.streams, Sender.isConnecting]

theorem Deaf.offers {manager own : Nat} (h : Deaf manager own s) (a : Act) :
    a.offers manager s.network = [] := by
  cases a with
  | network event =>
    cases event with
    | offer k x =>
      by_cases hk : k = manager
      · subst hk
        simp [Act.offers, Network.offers, h.onEvent_offer]
      · simp [Act.offers, Network.offers, hk]
    | _ => rfl
  | _ => rfl

/-- Beside a connection of its own nothing arrives for the session from the session manager, and
nothing that had arrived is taken. -/
theorem Lasts.deaf {manager own : Nat} {acts : List Act} (hl : s.Lasts acts)
    (h : Deaf manager own s) :
    Deaf manager own (s.run acts) ∧ s.offered manager acts = [] := by
  induction acts generalizing s with
  | nil => exact ⟨h,rfl⟩
  | cons a acts ih =>
    obtain ⟨_,hl'⟩ := lasts_cons.mp hl
    obtain ⟨e,he,hr⟩ := h.live
    obtain ⟨hone,hlive⟩ := (effect_apply h.sound.sane a).reads h.sound he hr hl'.isSome
    have hdeaf : Deaf manager own (s.apply a) :=
      ⟨h.sound.apply a,tidy_run h.sound h.tidy [a],h.ne,hone.links.symm ▸ h.lt,hlive⟩
    obtain ⟨hlast,hnone⟩ := ih hl' hdeaf
    exact ⟨hlast,by rw [offered, h.offers, hnone]; rfl⟩

end State

/-! ## How a reply is counted -/

/-- A reply that is counted is delivered at once, unless the application asked to ignore it. -/
def Counts (s t : State) : Prop :=
  ∃ payload, t.journal = s.journal ++ [.counted payload] ++
      (if s.suppressNext then [] else s.deliveries payload) ∧
    t.received = s.received + 1 ∧ t.suppressNext = false

theorem Turn.counts {s t : State} {e e' : Episode} (h : Turn s e t e') :
    t.counted = s.counted ∨ e' = e ∧ Counts s t := by
  simp only [State.counted]
  cases h with
  | count => exact .inr ⟨rfl,_,rfl,rfl,rfl⟩
  | refuse | reject | timeOut | refuseOwn =>
    exact .inl (by simp [State.giveUp, Entry.counted?, List.filterMap_cons])
  | establish | establishOwn =>
    exact .inl (by simp [State.counted_deliveries, Entry.counted?, List.filterMap_cons])
  | _ => exact .inl (by simp [Entry.counted?])

namespace State
variable {s t : State} {e : Episode} {a : Act}

theorem counted_settleEpisode (e : Episode) (s : State) :
    (s.settleEpisode e).counted = s.counted := by
  cases ho : e.isOver with
  | false =>
    rw [settleEpisode_of_not_over ho]
    rfl
  | true =>
    have hj := grows_outside (grows_onReleased e.connectFailed s)
    rw [settleEpisode_of_over ho, counted, hj.filterMap_eq fun _ => Entry.counted?_of_isOutside]
    simp [counted, Entry.counted?]

theorem Effect.counts (h : Effect s a t) (hs : s.Sound) : t.counted = s.counted ∨ Counts s t := by
  rcases h.cases with ⟨e,e',u,_,he,hturn,rfl⟩ | ⟨_,_,rfl⟩ | hb
  · rcases hturn.counts with hu | ⟨rfl,hu⟩
    · exact .inl ((counted_settleEpisode e' u).trans hu)
    · rw [settleEpisode_of_not_over (hs.live e' he).2]
      exact .inr hu
  · refine .inl ?_
    unfold execute
    split <;> rfl
  · exact .inl (counted_of_isOutside hb.journal)

/-- In an episode that is connected, what arrives over the connection of the session is taken in
the order in which it has arrived; every reply that is taken is counted once, and delivered at once
unless the application asked to ignore it; and where no task can move all of it has been taken.
But beside a connection of its own the session has given up receiving from the session manager:
nothing that the session manager sends arrives, and nothing that had arrived is taken. -/
theorem replies_counted_once (c : Settings) (m : Mode) (monitor : Monitor)
    (listener : Option Nat) (before : List Act) (e : Episode) (manager : Nat)
    (session : Option Nat)
    (he : ((start c m monitor listener).run before).episode = some e)
    (hf : e.sender = .forwarding manager session) :
    let s := (start c m monitor listener).run before
    let id := session.getD manager
    ∀ during, s.Lasts during →
      let t := s.run during
      (∃ taken, s.network.unread id ++ s.offered id during = taken ++ t.network.unread id ∧
        t.counted = s.counted ++ taken.filterMap Arrival.reply? ∧
        t.received = s.received + (taken.filterMap Arrival.reply?).length) ∧
      (t.isQuiescent = true → t.network.unread id = []) ∧
      (∀ a, (t.apply a).counted = t.counted ∨ Counts t (t.apply a)) ∧
      (session.isSome = true →
        t.network.unread manager = s.network.unread manager ∧
        ∀ x, t.onNetwork (.offer manager x) = (.gone,t)) := by
  intro s id during hl t
  have hs : s.Sound := sound_run (sound_start ..) before
  have ht : t.Sound := sound_run hs during
  have hr : e.Reads id := by
    refine ⟨by rw [hf]; rfl,?_⟩
    exact (hs.live e he).1.valid.forwarding manager session hf
  obtain ⟨hreads,e',he',hr'⟩ := hl.reads hs he hr
  refine ⟨hreads.taken,unread_of_quiescent ht he' hr',
    fun a => (effect_apply ht.sane a).counts ht,fun hown => ?_⟩
  obtain ⟨own,rfl⟩ := Option.isSome_iff_exists.mp hown
  have hplaced : s.Placed := placed_run (sound_start ..).sane (placed_start c m monitor listener) before
  obtain ⟨hlt,hlen⟩ := hplaced e he manager own hf
  have hdeaf : Deaf manager own s :=
    ⟨hs,tidy_run (sound_start ..) (tidy_start ..) before,Nat.ne_of_lt hlt,Nat.lt_trans hlt hlen,
      e,he,hr⟩
  obtain ⟨hlast,hnone⟩ := hl.deaf hdeaf
  refine ⟨?_,fun x => ?_⟩
  · have hmanager := hreads.others manager (Nat.ne_of_lt hlt)
    rwa [hnone, List.append_nil] at hmanager
  · rw [onNetwork, hlast.onEvent_offer x]

/-- A reply over the one connection of the session is counted. -/
theorem replies_counted_once_echo :
    let before : List Act :=
      [.move .sender, .network (.offer 0 (.message (Wire.clientMessage (.ofText "session-manager")
        [.ofText "[\"SESSION_INITIATED\",\"client-1\"]"]))), .move .sender, .move .receiver]
    let during : List Act :=
      [.network (.offer 0 (.message (Wire.clientMessage (.ofText "echo") [.ofText "pong"]))),
        .move .receiver]
    let s := (start .sample .accept {} none).run before
    (s.run during).counted = s.counted ++ ["pong"] ∧
      (s.run during).received = s.received + 1 := by
  intro before during s
  have he : ((start .sample .accept {} none).run before).episode =
      some ⟨.forwarding 0 none,.reading 0,3,false,false⟩ := by decide +kernel
  have hcounted := replies_counted_once .sample .accept {} none before _ 0 none he rfl
  have hlasts : s.Lasts during := by
    simp only [during, lasts_cons, lasts_nil]
    decide +kernel
  obtain ⟨⟨taken,hu,hc,hr⟩,hq,_⟩ := hcounted during hlasts
  have hquiescent : (s.run during).isQuiescent = true := by decide +kernel
  rw [hq hquiescent, List.append_nil] at hu
  have hreplies : taken.filterMap Arrival.reply? = ["pong"] := by
    rw [← hu]
    decide +kernel
  rw [hc, hr, hreplies]
  exact ⟨rfl,rfl⟩

/-- The session sends to the session manager beside its own connection. That is counted, but the
session manager cannot answer. -/
theorem session_manager_unheard :
    let s := (start .sample .accept {} none).run
      [.move .sender, .network (.offer 0 (.message (Wire.clientMessage (.ofText "session-manager")
        [.ofText "[\"SESSION_INITIATED\",\"client-1\",\"\",\"session:9000\"]"]))),
        .move .sender, .move .receiver, .send 0 ⟨"session-manager","ping"⟩, .move .sender]
    let answer : Arrival :=
      .message (Wire.clientMessage (.ofText "session-manager") [.ofText "pong"])
    (s.isQuiescent = true ∧ s.episode = some ⟨.forwarding 0 (some 1),.reading 1,4,false,false⟩) ∧
      s.sent = 1 ∧ answer.reply? = some "pong" ∧
      (s.onNetwork (.offer 0 answer)).1 = .gone ∧
      (s.apply (.network (.offer 0 answer))).isQuiescent = true ∧
      (s.apply (.network (.offer 0 answer))).received = 0 := by
  decide +kernel

end State
end Majordomo.Client
