import Majordomo.Proofs.Client.Releases

/-! # How often a session connects

A session connects again after an episode in which connecting had succeeded, or in which the
application has sent. So every episode but the first is paid for by a connect that succeeded or by
a send, and where the far end refuses nothing is attempted until the application sends.
-/
namespace Majordomo.Client

def Event.isConnected : Event → Bool
  | .connected _ => true
  | .connectFailed _ | .disconnected | .reconnecting | .destroyed => false

def Entry.isConnected (x : Entry) : Bool := (x.event?.map Event.isConnected).getD false

theorem Entry.isConnected_of_isOutside {x : Entry} (h : x.isOutside = true) :
    x.isConnected = false := by
  cases x with
  | event e =>
    cases e with
    | connected => cases h
    | _ => rfl
  | _ => rfl

def Act.isTick : Act → Bool
  | .tick _ => true
  | _ => false

theorem Act.isSend_of_isTick {a : Act} (h : (a.isInner || a.isTick) = true) :
    a.isSend = false := by
  cases a with
  | send | sendIgnoringReply | disconnect | attempt => cases h
  | _ => rfl

namespace Episode

def isPending (e : Episode) : Bool := e.sender.isConnecting && e.receiver = .waiting

def isAnswered (e : Episode) (n : Network) : Bool :=
  e.sender.isConnecting && e.sender.sinks.any fun k => !(n.unread k).isEmpty

theorem isAnswered_eq_false {e : Episode} {n : Network} :
    e.isAnswered n = false ↔
      (e.sender.isConnecting = true → ∀ k ∈ e.sender.sinks, n.unread k = []) := by
  simp [isAnswered]

end Episode

namespace State

def connects (s : State) : Nat := s.events.countP Event.isConnected

/-- Unless the session is to end, another episode is due, or it will be after the one that is
live: the application has sent in it, or connecting has succeeded. -/
def isArmed (s : State) : Bool :=
  !s.isCancelled && (s.reconnectDue ||
    s.episode.any fun e => s.sendRequested || !(e.isPending || e.connectFailed))

/-- What the session is about to do: the next episode begins, once. One that follows it is paid
for by a send or by a connect that succeeds. -/
structure RenewsOnce (s : State) : Prop where
  due : s.reconnectDue = true
  once : ∀ later, (∀ b ∈ later, b.isSend = false) → (s.run later).connects = s.connects →
    (s.run later).isCancelled = false →
    .move .reconnect ∈ later ∨ (s.run later).isQuiescent = true → s.beginnings later = 1
  bound : ∀ later, s.beginnings later + s.connects ≤
    1 + later.countP Act.isSend + (s.run later).connects

/-- Nothing is attempted until the application sends; then the next episode begins, once. -/
structure RestsUntilSend (s : State) : Prop where
  rests : ∀ later, (∀ b ∈ later, b.isSend = false) →
    s.beginnings later = 0 ∧ Grows (!·.isDialled) s.journal (s.run later).journal
  send : ∀ later b, (∀ b ∈ later, b.isSend = false) → b.isSend = true →
    (s.run later).isCancelled = false → (s.run (later ++ [b])).RenewsOnce

end State

section Turn
variable {s t : State} {e e' : Episode}

theorem Episode.isAnswered_of_receive {manager deadline : Nat} {expired : Bool} {frames : Message}
    {n n' : Network} (hs : e.sender = .awaiting manager deadline expired)
    (hr : n.receive manager = some (.message frames,n')) : e.isAnswered n = true := by
  rcases Network.unread_receive hr with ⟨a,_,ha⟩ | ⟨hr,_⟩
  · simp [isAnswered, hs, Sender.isConnecting, Sender.sinks, ha]
  · cases hr

/-- Connecting succeeds where it has been answered, and then it is over. -/
theorem Turn.connects (h : Turn s e t e') :
    t.connects = s.connects ∨
      t.connects = s.connects + 1 ∧ e.isAnswered s.network = true ∧
        e'.sender.isConnecting = false := by
  simp only [State.connects, State.events_eq]
  cases h with
  | establish hs _ _ hr | establishOwn hs _ _ hr =>
    refine .inr ⟨?_,Episode.isAnswered_of_receive hs hr,rfl⟩
    simp [State.events_deliveries, Entry.event?, Event.isConnected, List.filterMap_cons]
  | refuse | reject | timeOut | refuseOwn =>
    exact .inl (by simp [State.giveUp, Entry.event?, Event.isConnected, List.filterMap_cons])
  | count =>
    refine .inl ?_
    split <;> simp [State.events_deliveries, Entry.event?, List.filterMap_cons]
  | _ => exact .inl (by simp [Entry.event?])

/-- No move makes an answer arrive. -/
theorem Turn.unanswered (h : Turn s e t e') (hv : e.Valid) (hu : e.isAnswered s.network = false) :
    e'.isAnswered t.network = false := by
  have hreader (hr : e.receiver ≠ .waiting ∧ e.receiver ≠ .ended) :
      e.sender.isConnecting = false := Bool.eq_false_iff.mpr fun hc => by
    rcases hv.connecting hc with hx | hx
    · exact hr.1 hx
    · exact hr.2 hx
  have hsinks := Episode.isAnswered_eq_false.mp hu
  cases h with
  | greet =>
    refine Episode.isAnswered_eq_false.mpr fun _ k hk => ?_
    obtain rfl := List.mem_singleton.mp hk
    rw [Network.unread_open, if_pos rfl]
  | expire hs =>
    refine Episode.isAnswered_eq_false.mpr fun _ k hk => hsinks (by rw [hs]; rfl) k ?_
    simpa [hs, Sender.sinks] using hk
  | hangOwn hs _ hr => cases hu.symm.trans (Episode.isAnswered_of_receive hs hr)
  | excuse => exact hu
  | overlook hr | accept hr | desist hr | finish hr | skip hr | count hr =>
    simp [Episode.isAnswered, Episode.hangUp, hreader (by simp [hr])]
  | write hs => simp [Episode.isAnswered, hs, Sender.isConnecting]
  | _ => rfl

/-- Every answer lets connecting succeed at most once. -/
theorem Turn.connects_le (h : Turn s e t e') (hv : e.Valid) :
    t.connects + (e'.isAnswered t.network).toNat ≤
      s.connects + (e.isAnswered s.network).toNat := by
  rcases h.connects with hc | ⟨hc,hu,hs⟩
  · rw [hc]
    refine Nat.add_le_add_left ?_ _
    cases hu : e.isAnswered s.network with
    | false => exact Nat.le_of_eq (congrArg Bool.toNat (h.unanswered hv hu))
    | true => exact Bool.toNat_le _
  · have hu' : e'.isAnswered t.network = false := by simp [Episode.isAnswered, hs]
    rw [hc, hu, hu']
    exact Nat.le_refl _

/-- Where nothing but a connect that succeeds could make the session connect again, a move changes
that only by such a connect. -/
theorem Turn.pending_or_failed (h : Turn s e t e') (hv : e.Valid) (hk : s.isCancelled = false)
    (hp : (e.isPending || e.connectFailed) = true) :
    (e'.isPending || e'.connectFailed) = true ∨ s.connects < t.connects := by
  rcases Bool.or_eq_true_iff.mp hp with hp | hf
  · obtain ⟨hs,hr⟩ : e.sender.isConnecting = true ∧ e.receiver = .waiting := by
      simpa [Episode.isPending] using hp
    obtain ⟨new,hev,ht⟩ := h.tells hv hk (.nothing hs hr)
    cases ht with
    | nothing hs' hr' => exact .inl (by simp [Episode.isPending, hs', hr'])
    | connected address => exact .inr (by simp [State.connects, hev, Event.isConnected])
    | failed _ _ hf' => exact .inl (by rw [hf', Bool.or_true])
  · have hs : e.sender.isConnecting = false := by
      rw [(hv.failed hf).1]
      rfl
    obtain ⟨_,_,hf'⟩ := h.silent hs
    exact .inl (by rw [hf', hf, Bool.or_true])

end Turn

namespace State
variable {s t : State} {e : Episode} {a : Act}

/-! ## What another episode is paid for with -/

theorem isArmed_of_idle (h : s.episode = none) :
    s.isArmed = (!s.isCancelled && s.reconnectDue) := by
  simp [isArmed, h]

theorem isArmed_of_episode (h : s.episode = some e) (hd : s.reconnectDue = false) :
    s.isArmed = (!s.isCancelled && (s.sendRequested || !(e.isPending || e.connectFailed))) := by
  simp [isArmed, h, hd]

theorem Fresh.isArmed (h : s.Fresh) : s.isArmed = false := by
  rw [isArmed_of_episode h.episode h.notDue, h.requested]
  exact Bool.and_false _

/-- An episode that is pending or has failed, and in which the application has not sent. -/
theorem Live.isArmed_settleEpisode (hl : s.Live e) (hr : s.sendRequested = false)
    (hp : (e.isPending || e.connectFailed) = true) : (s.settleEpisode e).isArmed = false := by
  cases ho : e.isOver with
  | false =>
    rw [settleEpisode_of_not_over ho, isArmed_of_episode (by exact rfl) (by exact hl.notDue), hp]
    simp [hr]
  | true =>
    have hf : e.connectFailed = true := by
      refine (Bool.or_eq_true_iff.mp hp).resolve_left fun hp => ?_
      have hx : e.sender = .ended := (hl.valid.isOver_iff.mp ho).1
      simp [Episode.isPending, hx, Sender.isConnecting] at hp
    have hsound : (s.settleEpisode e).Sound := hl.sound_settleEpisode
    rw [settleEpisode_of_over ho] at hsound ⊢
    rw [isArmed_of_idle (episode_onReleased ..)]
    cases hc : s.closing || s.isCancelled with
    | true =>
      rw [hsound.isCancelled_of_closing (closing_onReleased hc _)]
      rfl
    | false =>
      have hd : s.released.reconnectDue = false := hl.notDue
      rw [hf, onReleased_of_paused hc hr, hd, Bool.and_false]

theorem connects_eq (s : State) : s.connects = s.journal.countP Entry.isConnected := by
  rw [connects, events_eq, List.countP_filterMap]
  rfl

theorem Effect.connects_le (h : Effect s a t) : s.connects ≤ t.connects := by
  rw [connects_eq, connects_eq]
  exact h.grows.sublist.countP_le

theorem connects_of_isOutside (h : Grows Entry.isOutside s.journal t.journal) :
    t.connects = s.connects := by
  rw [connects_eq, connects_eq]
  exact h.countP_eq fun _ => Entry.isConnected_of_isOutside

/-- Between two episodes no connect succeeds. -/
theorem Effect.connects_of_idle (h : Effect s a t) (hi : s.episode = none) :
    t.connects = s.connects := by
  rcases h.cases with ⟨_,_,_,_,he,_⟩ | ⟨_,_,rfl⟩ | hb
  · cases hi.symm.trans he
  · unfold execute
    split <;> rfl
  · exact connects_of_isOutside hb.journal

theorem connects_settleEpisode (e : Episode) (s : State) :
    (s.settleEpisode e).connects = s.connects := by
  cases ho : e.isOver with
  | false =>
    rw [settleEpisode_of_not_over ho]
    rfl
  | true =>
    have hj := grows_outside (grows_onReleased e.connectFailed s)
    rw [settleEpisode_of_over ho, connects_eq, connects_eq,
      hj.countP_eq fun _ => Entry.isConnected_of_isOutside, List.countP_append]
    rfl

/-- Nothing arms a session but a send or a connect that succeeds. -/
theorem Effect.armed (h : Effect s a t) (hs : s.Sound) (ht : t.Sound) (hk : s.isCancelled = false)
    (harm : t.isArmed = true) : s.isArmed = true ∨ a.isSend = true ∨ s.connects < t.connects := by
  have hk' : t.isCancelled = false := by simpa using (Bool.and_eq_true_iff.mp harm).1
  cases h with
  | @turn _ e e' u _ he hturn =>
    obtain ⟨hl,_⟩ := hs.live e he
    have harmed := isArmed_of_episode he hl.notDue
    rw [hk] at harmed
    cases hr : s.sendRequested with
    | true => exact .inl (by rw [harmed, hr]; rfl)
    | false =>
      cases hp : e.isPending || e.connectFailed with
      | false => exact .inl (by rw [harmed, hp, Bool.not_false, Bool.or_true]; rfl)
      | true =>
        have hu : u.sendRequested = false := (congrArg State.sendRequested hturn.frame :).trans hr
        rcases hturn.pending_or_failed hl.valid hk hp with hp' | hlt
        · cases ((hturn.live hl).isArmed_settleEpisode hu hp').symm.trans harm
        · exact .inr (.inr (by rwa [connects_settleEpisode]))
  | revive hd => exact .inl (by rw [isArmed_of_idle (hs.idle_of_due hd), hd, hk]; rfl)
  | request ha => exact .inr (.inl ha)
  | close => cases (ht.isCancelled_of_closing (closing_close s)).symm.trans hk'
  | pass _ _ hu =>
    have he : t.episode = s.episode := hu.episode
    have hd : t.reconnectDue = s.reconnectDue := (congrArg State.reconnectDue hu.core :)
    have hr : t.sendRequested = s.sendRequested := (congrArg State.sendRequested hu.core :)
    rw [isArmed, he, hd, hr, hk'] at harm
    exact .inl (by rw [isArmed, hk]; exact harm)

/-- What an act pays for, and what it uses up. -/
theorem pays (hs : s.Sound) (a : Act) :
    (s.begins a).toNat + (s.apply a).isArmed.toNat + s.connects ≤
      s.isArmed.toNat + a.isSend.toNat + (s.apply a).connects := by
  have heffect : Effect s a (s.apply a) := effect_apply hs.sane a
  have hle : s.connects ≤ (s.apply a).connects := heffect.connects_le
  cases hb : s.begins a with
  | true =>
    obtain ⟨_,hd,hk⟩ := (begins_iff hs).mp hb
    have harm : s.isArmed = true := by
      rw [isArmed_of_idle (hs.idle_of_due hd), hd, hk]
      rfl
    rw [harm, (fresh_of_begins hs hb).1.isArmed]
    simp only [Bool.toNat_true, Bool.toNat_false]
    omega
  | false =>
    cases harm : (s.apply a).isArmed with
    | false =>
      simp only [Bool.toNat_false]
      omega
    | true =>
      have hk : (s.apply a).isCancelled = false := by simpa using (Bool.and_eq_true_iff.mp harm).1
      have hk' : s.isCancelled = false := isCancelled_of_apply hs hk
      rcases heffect.armed hs (hs.apply a) hk' harm with hx | hx | hx
      · rw [hx]
        simp only [Bool.toNat_true, Bool.toNat_false]
        omega
      · rw [hx]
        simp only [Bool.toNat_true, Bool.toNat_false]
        omega
      · simp only [Bool.toNat_true, Bool.toNat_false]
        omega

/-- Every episode that begins is paid for by a send or by a connect that has succeeded. -/
theorem beginnings_le (hs : s.Sound) (acts : List Act) :
    s.beginnings acts + (s.run acts).isArmed.toNat + s.connects ≤
      s.isArmed.toNat + acts.countP Act.isSend + (s.run acts).connects := by
  induction acts generalizing s with
  | nil => simp [beginnings, run]
  | cons a acts ih =>
    have hone := pays hs a
    have hmore := ih (hs.apply a)
    have hcount : (a :: acts).countP Act.isSend = acts.countP Act.isSend + a.isSend.toNat := by
      rw [List.countP_cons]
      cases a.isSend <;> rfl
    rw [beginnings, run_cons, hcount]
    omega

/-! ## One more episode -/

/-- A reconnect that is due stays due until it begins an episode. -/
theorem begins_or_due (hs : s.Sound) (hd : s.reconnectDue = true)
    (hk : (s.apply a).isCancelled = false) :
    s.begins a = true ∨ a ≠ .move .reconnect ∧ (s.apply a).reconnectDue = true := by
  rcases (effect_apply hs.sane a).cases with ⟨_,_,_,_,he,_⟩ | ⟨ha,_⟩ | hb
  · cases (hs.idle_of_due hd).symm.trans he
  · exact .inl ((begins_iff hs).mpr ⟨ha,hd,isCancelled_of_apply hs hk⟩)
  · refine .inr ⟨?_,hb.due hd⟩
    rintro rfl
    have hbegins : s.begins (.move .reconnect) = true :=
      (begins_iff hs).mpr ⟨rfl,hd,isCancelled_of_apply hs hk⟩
    cases (begins_of_episode_eq hb.episode).symm.trans hbegins

/-- The reconnect that is due is made sooner or later, unless the session is to end. -/
theorem one_le_beginnings (hs : s.Sound) (hd : s.reconnectDue = true) {acts : List Act}
    (hk : (s.run acts).isCancelled = false)
    (hm : .move .reconnect ∈ acts ∨ (s.run acts).reconnectDue = false) :
    1 ≤ s.beginnings acts := by
  induction acts generalizing s with
  | nil =>
    rcases hm with hm | hm
    · cases hm
    · cases hd.symm.trans hm
  | cons a acts ih =>
    have hka : (s.apply a).isCancelled = false := isCancelled_of_run (hs.apply a) hk
    rw [beginnings]
    rcases begins_or_due hs hd hka with hb | ⟨ha,hd'⟩
    · rw [hb, Bool.toNat_true]
      exact Nat.le_add_right ..
    · have hm' : .move .reconnect ∈ acts ∨ ((s.apply a).run acts).reconnectDue = false :=
        hm.imp_left fun hm => (List.mem_cons.mp hm).resolve_left fun he => ha he.symm
      exact Nat.le_trans (ih (hs.apply a) hd' hk hm') (Nat.le_add_left ..)

theorem Sound.renewsOnce (hs : s.Sound) (hd : s.reconnectDue = true) : s.RenewsOnce where
  due := hd
  once later hn hc hk hm := by
    have hle := beginnings_le hs later
    have hsends : later.countP Act.isSend = 0 :=
      List.countP_eq_zero.mpr fun b hb => by simp [hn b hb]
    have harm : s.isArmed.toNat ≤ 1 := Bool.toNat_le _
    have hone : 1 ≤ s.beginnings later :=
      one_le_beginnings hs hd hk (hm.imp_right not_reconnectDue_of_quiescent)
    omega
  bound later := by
    have hle := beginnings_le hs later
    have harm : s.isArmed.toNat ≤ 1 := Bool.toNat_le _
    omega

/-! ## Until the application sends -/

/-- Between two episodes, with no reason to connect again. -/
structure Dormant (s : State) : Prop where
  sound : s.Sound
  idle : s.episode = none
  unarmed : s.isArmed = false

theorem Dormant.apply (h : s.Dormant) (hn : a.isSend = false) :
    (s.apply a).Dormant ∧ s.begins a = false := by
  have hpays := pays h.sound a
  rw [h.unarmed, hn, (effect_apply h.sound.sane a).connects_of_idle h.idle] at hpays
  have hsum : (s.begins a).toNat + (s.apply a).isArmed.toNat = 0 := by
    simp only [Bool.toNat_false] at hpays
    omega
  obtain ⟨hb,harm⟩ := Nat.add_eq_zero_iff.mp hsum
  rw [Bool.toNat_eq_zero] at hb harm
  have hi : (s.apply a).episode = none := by
    rw [begins, h.idle] at hb
    simpa using hb
  exact ⟨⟨h.sound.apply a,hi,harm⟩,hb⟩

theorem Dormant.run (h : s.Dormant) {acts : List Act} (hn : ∀ b ∈ acts, b.isSend = false) :
    (s.run acts).Dormant ∧ s.beginnings acts = 0 ∧
      Grows (!·.isDialled) s.journal (s.run acts).journal := by
  induction acts generalizing s with
  | nil => exact ⟨h,rfl,.refl _⟩
  | cons a acts ih =>
    obtain ⟨ha,hb⟩ := h.apply (hn a (List.mem_cons_self ..))
    obtain ⟨hr,hbs,hj⟩ := ih ha fun b hm => hn b (List.mem_cons_of_mem _ hm)
    have hdial : Grows (!·.isDialled) s.journal (s.apply a).journal :=
      (effect_apply h.sound.sane a).undialled fun e he => by cases h.idle.symm.trans he
    exact ⟨hr,by rw [beginnings, hb, hbs]; rfl,hdial.trans hj⟩

/-- A send that is not refused makes the session connect again. -/
theorem Dormant.due_of_send (h : s.Dormant) (ha : a.isSend = true) (hk : s.isCancelled = false) :
    (s.apply a).reconnectDue = true := by
  have hc : s.closing = false := h.sound.not_closing hk
  have hr := h.sound.resting h.idle hc
  have hnew : s.releasePhase = .new := by
    have hd := isArmed_of_idle h.idle
    rw [h.unarmed, hk] at hd
    cases hp : s.releasePhase with
    | new => rfl
    | started => cases hd.trans (hr.due.mpr hp)
    | finished => cases hk.symm.trans (hr.cutOff hp)
    | stopped => exact absurd hp hr.release
  have heffect : Effect s a (s.apply a) := effect_apply h.sound.sane a
  generalize s.apply a = t at *
  cases heffect with
  | turn _ he => cases h.idle.symm.trans he
  | revive | close => cases ha
  | request _ _ hu =>
    have hd : t.reconnectDue = s.requestSend.reconnectDue := (congrArg State.reconnectDue hu.core :)
    rw [hd, requestSend_of_idle h.idle, reconnect_of_new (by exact hnew)]
  | pass _ hsend => cases hc.symm.trans (hsend ha)

theorem Dormant.restsUntilSend (h : s.Dormant) : s.RestsUntilSend where
  rests _ hn := (h.run hn).2
  send later b hn hb hk := by
    obtain ⟨hd,_⟩ := h.run hn
    rw [run_append]
    exact (hd.sound.apply b).renewsOnce (hd.due_of_send hb hk)

/-! ## Until the session comes to rest -/

def isAnswered (s : State) : Bool := s.episode.any fun e => e.isAnswered s.network

theorem isAnswered_of_idle (h : s.episode = none) : s.isAnswered = false := by
  rw [isAnswered, h]
  rfl

theorem Fresh.not_answered (h : s.Fresh) : s.isAnswered = false := by
  rw [isAnswered, h.episode]
  rfl

/-- While only the tasks move and time passes, connecting succeeds at most once. -/
theorem Effect.connects_add_le (h : Effect s a t) (hs : s.Sound)
    (ha : (a.isInner || a.isTick) = true) :
    t.connects + t.isAnswered.toNat ≤ s.connects + s.isAnswered.toNat := by
  have hnetwork : a.onNetwork s.network = s.network := by
    cases a with
    | network => cases ha
    | _ => rfl
  cases h with
  | @turn _ e e' u _ he hturn =>
    have hle := hturn.connects_le (hs.live e he).1.valid
    have hanswered : s.isAnswered = e.isAnswered s.network := by
      rw [isAnswered, he]
      rfl
    rw [connects_settleEpisode, hanswered]
    cases ho : e'.isOver with
    | false =>
      rw [settleEpisode_of_not_over ho]
      exact hle
    | true =>
      rw [settleEpisode_of_over ho, isAnswered_of_idle (episode_onReleased ..)]
      exact Nat.le_trans (Nat.le_add_right ..) hle
  | revive hd =>
    rw [(Effect.revive hd).connects_of_idle (hs.idle_of_due hd)]
    cases hc : canExecute
        { s with reconnectDue := false, releasePhase := s.releasePhase.next .finished } with
    | true =>
      rw [(fresh_execute hc rfl).not_answered]
      exact Nat.le_add_right ..
    | false =>
      rw [execute_of_not_canExecute hc]
      exact Nat.le_refl _
  | request hsend => cases (Act.isSend_of_isTick ha).symm.trans hsend
  | close => cases ha
  | pass _ _ hpass =>
    have hanswered : t.isAnswered = s.isAnswered := by
      rw [isAnswered, isAnswered, hpass.episode, hpass.network, hnetwork]
    exact Nat.le_of_eq (by rw [connects_of_isOutside hpass.beside.journal, hanswered])

theorem connects_run_le (hs : s.Sound) {acts : List Act}
    (ha : ∀ b ∈ acts, (b.isInner || b.isTick) = true) :
    (s.run acts).connects + (s.run acts).isAnswered.toNat ≤ s.connects + s.isAnswered.toNat := by
  induction acts generalizing s with
  | nil => exact Nat.le_refl _
  | cons a acts ih =>
    have hone := (effect_apply hs.sane a).connects_add_le hs (ha a (List.mem_cons_self ..))
    have hmore := ih (hs.apply a) fun b hm => ha b (List.mem_cons_of_mem _ hm)
    exact Nat.le_trans hmore hone

/-- No episode follows one that has just begun while only the tasks move and time passes. -/
theorem Fresh.beginnings_eq_zero (h : s.Fresh) (hs : s.Sound) {acts : List Act}
    (ha : ∀ b ∈ acts, (b.isInner || b.isTick) = true) : s.beginnings acts = 0 := by
  have hle := beginnings_le hs acts
  have hconnects := connects_run_le hs ha
  have hsends : acts.countP Act.isSend = 0 :=
    List.countP_eq_zero.mpr fun b hb => by simp [Act.isSend_of_isTick (ha b hb)]
  rw [h.isArmed, hsends] at hle
  rw [h.not_answered] at hconnects
  simp only [Bool.toNat_false] at hle hconnects
  omega

/-- Whatever is done, at most one episode begins before something else is done. -/
theorem beginnings_le_one (hs : s.Sound) {acts : List Act}
    (ha : ∀ b ∈ acts.tail, (b.isInner || b.isTick) = true) : s.beginnings acts ≤ 1 := by
  induction acts generalizing s with
  | nil => exact Nat.zero_le _
  | cons a acts ih =>
    rw [beginnings]
    cases hb : s.begins a with
    | true =>
      have hzero : (s.apply a).beginnings acts = 0 :=
        (fresh_of_begins hs hb).1.beginnings_eq_zero (hs.apply a) ha
      rw [hzero]
      exact Nat.le_refl _
    | false =>
      have hle := ih (hs.apply a) fun b hm => ha b (List.mem_of_mem_tail hm)
      simpa using hle

theorem isArmed_start (c : Settings) (m : Mode) (monitor : Monitor) (listener : Option Nat) :
    (start c m monitor listener).isArmed = false := by
  rcases Option.eq_none_or_eq_some (start c m monitor listener).episode with hi | ⟨e,he⟩
  · have hd : (start c m monitor listener).reconnectDue = false := by
      unfold start build execute
      split <;> rfl
    rw [isArmed_of_idle hi, hd, Bool.and_false]
  · exact (fresh_start (by rw [he]; rfl)).isArmed

/-- An episode of a session that is not to end has told whether connecting has succeeded or failed.
After one that failed and in which the application has not sent, nothing is attempted until the
next send; after any other the next episode begins, once. No act makes more than one episode begin
before the session comes to rest, and in every run there is a send or a connect that has succeeded
for each episode that has begun after the first. -/
theorem connects_again_once (c : Settings) (m : Mode) (monitor : Monitor) (listener : Option Nat)
    (before : List Act) :
    let s₀ := start c m monitor listener
    let s := s₀.run before
    s₀.beginnings before ≤ before.countP Act.isSend + s.connects ∧
    (∀ a later, (∀ b ∈ later, (b.isInner || b.isTick) = true) → s.beginnings (a :: later) ≤ 1) ∧
    (s₀.Opens before → ∀ during a, s.Lasts during →
      let u := s.run (during ++ [a])
      let told := s.tidings (during ++ [a])
      u.episode = none → u.isCancelled = false →
      ((∃ address, .connected address ∈ told) ∧ u.RenewsOnce) ∨
      ((∃ reason, .connectFailed reason ∈ told) ∧ (∃ b ∈ during, b.isSend = true) ∧
        u.RenewsOnce) ∨
      ((∃ reason, .connectFailed reason ∈ told) ∧ (∀ b ∈ during, b.isSend = false) ∧
        u.RestsUntilSend)) := by
  intro s₀ s
  have hs : s.Sound := sound_run (sound_start ..) before
  refine ⟨?_,fun a later hq => beginnings_le_one hs hq,?_⟩
  · have hle : s₀.beginnings before + s.isArmed.toNat + s₀.connects ≤
        s₀.isArmed.toNat + before.countP Act.isSend + s.connects := beginnings_le (sound_start ..) before
    have harm : s₀.isArmed.toNat = 0 := Bool.toNat_eq_zero.mpr (isArmed_start ..)
    omega
  · intro ho during a hl u told hi hk
    have hu : u.Sound := sound_run hs (during ++ [a])
    obtain ⟨last,htold,hlast⟩ := (fresh_of_opens ho).ends hs hl hi hk
    have hmem : last ∈ told := by
      have htold : told = _ := htold
      rw [htold]
      exact List.mem_cons_self ..
    rcases hlast with ⟨⟨address,rfl⟩,hd⟩ | ⟨⟨reason,rfl⟩,hd⟩
    · exact .inl ⟨⟨address,hmem⟩,hu.renewsOnce hd⟩
    · have hd : u.reconnectDue = during.any Act.isSend := hd
      cases hsent : during.any Act.isSend with
      | true =>
        refine .inr (.inl ⟨⟨reason,hmem⟩,?_,hu.renewsOnce (hd.trans hsent)⟩)
        simpa using hsent
      | false =>
        have hdormant : u.Dormant :=
          ⟨hu,hi,by rw [isArmed_of_idle hi, hd, hsent, Bool.and_false]⟩
        refine .inr (.inr ⟨⟨reason,hmem⟩,?_,hdormant.restsUntilSend⟩)
        simpa using hsent

/-- A far end that refuses: nothing more is attempted, or if the application has sent meanwhile, the
next episode begins. -/
theorem connects_again_once_refused :
    let s := start .sample .refuse {} none
    (s.run [.move .sender, .move .receiver]).RestsUntilSend ∧
      (s.run [.send 0 ⟨"echo","a"⟩, .move .sender, .move .receiver]).RenewsOnce := by
  intro s
  have hopens : s.Opens [] := .inl ⟨rfl,by decide⟩
  have hlasts : s.Lasts [.move .sender] ∧ s.Lasts [.send 0 ⟨"echo","a"⟩, .move .sender] := by
    simp only [lasts_cons, lasts_nil]
    decide +kernel
  obtain ⟨_,_,hends⟩ := connects_again_once .sample .refuse {} none []
  have htold : (s.tidings [.move .sender, .move .receiver]).all (!·.isConnected) = true := by
    decide +kernel
  have hquiet := hends hopens [.move .sender] (.move .receiver) hlasts.1 (by decide) (by decide)
  have hsent := hends hopens [.send 0 ⟨"echo","a"⟩, .move .sender] (.move .receiver) hlasts.2
    (by decide) (by decide)
  constructor
  · rcases hquiet with ⟨⟨address,hm⟩,_⟩ | ⟨_,hb,_⟩ | ⟨_,_,hrests⟩
    · cases List.all_eq_true.mp htold _ hm
    · simp [Act.isSend] at hb
    · exact hrests
  · rcases hsent with ⟨_,honce⟩ | ⟨_,_,honce⟩ | ⟨_,hb,_⟩
    · exact honce
    · exact honce
    · simp [Act.isSend] at hb

end State

/-! ## Where no episode can begin any more -/

/-- No episode is live or due, and a release that is under way lets nobody ask for one. -/
structure State.Barred (s : State) : Prop where
  episode : s.episode = none
  phase : s.releasePhase ≠ .new
  due : s.reconnectDue = false

namespace State
variable {s s' : State}

theorem Barred.finishDestroy (h : s.Barred) : s.finishDestroy.Barred := by
  unfold State.finishDestroy
  split
  · exact h
  · refine ⟨h.episode,?_,h.due⟩
    have hp := h.phase
    change s.releasePhase.next .finished ≠ .new
    cases hr : s.releasePhase with
    | new => exact absurd hr hp
    | started | finished | stopped => exact nofun

theorem Barred.close (h : s.Barred) : s.close.Barred := by
  rcases Bool.eq_false_or_eq_true s.closing with hc | hc
  · rwa [close_of_closing hc]
  · rw [close_of_idle hc h.episode]
    have hp : s.releasePhase.next .stopped ≠ .new := by
      cases s.releasePhase <;> exact nofun
    exact finishDestroy ⟨h.episode,hp,h.due⟩

theorem Barred.requestSend (h : s.Barred) : s.requestSend.Barred := by
  rw [requestSend_of_idle h.episode, reconnect_of_ne_new (by exact h.phase)]
  exact ⟨h.episode,h.phase,h.due⟩

theorem Barred.change (h : s.Barred) (hc : Change s s') : s'.Barred := by
  cases hc with
  | step hs =>
    cases hs with
    | turn _ he => cases h.episode.symm.trans he
    | revive hd => cases h.due.symm.trans hd
    | enqueue => exact ⟨h.episode,h.phase,h.due⟩
  | request => exact h.requestSend
  | push | wait | suppress | listen | network | tick | shutdown =>
    exact ⟨h.episode,h.phase,h.due⟩

theorem Barred.apply (h : s.Barred) (a : Act) : (s.apply a).Barred := by
  have hrun : (s.run [a]).Barred :=
    run_invariant (fun _ _ _ hc h => h.change hc) (fun _ _ => Barred.close)
      (sane_of_idle h.episode) h
  exact hrun

theorem Barred.judge (h : s.Barred) (failed : Bool) : (s.judge failed).1.Barred := by
  have hbarred (closing sendRequested : Bool) :
      State.Barred { s with closing, sendRequested } := ⟨h.episode,h.phase,h.due⟩
  unfold State.judge
  dsimp only
  split
  · exact (hbarred _ s.sendRequested).finishDestroy
  · split
    · exact hbarred _ s.sendRequested
    · split
      · exact hbarred _ false
      · exact hbarred _ s.sendRequested

theorem Barred.attend (h : s.Barred) (inRuntime : Bool) (x : Errand) :
    (s.attend inRuntime x).1.Barred := by
  cases x with
  | announce => exact ⟨h.episode,h.phase,h.due⟩
  | judge failed => exact h.judge failed
  | rearm message =>
    cases message with
    | none => rwa [State.attend, reconnect_of_ne_new h.phase]
    | some m => rwa [State.attend, schedule_of_ne_new h.phase]
  | enqueue ticket o =>
    unfold State.attend State.enqueue
    dsimp only
    split <;> exact ⟨h.episode,h.phase,h.due⟩

end State

/-- The session is barred, and no stray episode is left whose end could make room for another. -/
structure Threads.Barred (th : Threads) : Prop where
  session : th.session.Barred
  strays : th.strays = []

namespace Threads
variable {th : Threads}

theorem Barred.move (h : th.Barred) (task : State.Task) : ((th.move task).getD th).Barred := by
  cases task with
  | sender | receiver | watchdog =>
    simp only [Threads.move, h.session.episode]
    exact h
  | reconnect =>
    simp only [Threads.move, revive, h.session.due]
    exact h
  | admission =>
    have ha := h.session.apply (.move .admission)
    unfold Threads.move
    cases hm : th.session.admissionMove with
    | none => exact h
    | some s =>
      have hs : th.session.apply (.move .admission) = s := by simp [State.apply, State.move, hm]
      exact ⟨hs ▸ ha,h.strays⟩

theorem Barred.within (h : th.Barred) (stray : Option Nat)
    (turn : Episode → Threads → Option (Option Outbound × State × Episode)) :
    (th.within stray turn).Barred := by
  have hc : th.crew? stray = none := by
    cases stray with
    | none => exact h.session.episode
    | some i => simp [crew?, h.strays]
  rw [Threads.within, hc]
  exact h

theorem Barred.perform (h : th.Barred) (d : Deed) : (th.perform d).Barred := by
  cases d with
  | act a =>
    rcases perform_act a th with ⟨task,rfl⟩ | hp
    · exact h.move task
    · rw [hp]
      exact ⟨h.session.apply a,h.strays⟩
  | turn stray | overlook stray | misfire stray =>
    unfold Threads.perform
    exact h.within stray _
  | look ignoring ticket o =>
    unfold Threads.perform look
    dsimp only
    split <;> exact ⟨⟨h.session.episode,h.session.phase,h.session.due⟩,h.strays⟩
  | resume i inRuntime =>
    unfold Threads.perform resume
    dsimp only
    split
    · exact h
    · exact ⟨h.session.attend inRuntime _,h.strays⟩
  | fill | drain => exact ⟨h.session,h.strays⟩

/-- Whatever is sent and whoever is interrupted, no episode ever begins again. -/
theorem Barred.course (h : th.Barred) (deeds : List Deed) : (th.course deeds).Barred := by
  induction deeds generalizing th with
  | nil => exact h
  | cons d deeds ih => exact ih (h.perform d)

end Threads

namespace State

/-- The episode that an interrupted send has asked for cannot begin beside that which is there, and
when that is over none follows. A send outside the runtime asks for an episode that nothing begins.
Either way the session is open, whatever is sent is accepted, and no episode ever begins again. -/
theorem connects_never_again :
    let late := (Threads.start .sample .refuse {} none).course (overtaken ++ [
      .act (.move .reconnect), .resume 0 true,
      .act (.move .sender), .act (.move .sender), .act (.move .sender), .act (.move .sender),
      .act (.network (.hangUp 0)), .act (.move .receiver), .act (.move .sender)])
    let outside := (Threads.start .sample .refuse {} none).course [
      .act (.move .sender), .act (.move .receiver),
      .look false 0 ⟨"echo","a"⟩, .resume 0 false, .resume 0 false]
    late.session.events.drop 2 =
        [.reconnecting, .connected "manager:9000", .reconnecting, .disconnected] ∧
      outside.session.events.drop 2 = [.reconnecting] ∧
      ∀ th ∈ [late, outside],
        (th.session.closing = false ∧ th.session.isCancelled = false) ∧
        (th.perform (.act (.send 2 ⟨"echo","c"⟩))).session.queue =
          th.session.queue ++ [⟨"echo","c"⟩] ∧
        ∀ deeds, (th.course deeds).session.episode = none := by
  intro late outside
  have hopen : ∀ th ∈ [late, outside],
      (th.session.closing = false ∧ th.session.isCancelled = false) ∧
      (th.perform (.act (.send 2 ⟨"echo","c"⟩))).session.queue =
        th.session.queue ++ [⟨"echo","c"⟩] := by decide +kernel
  have hbarred : ∀ th ∈ [late, outside], th.session.episode = none ∧
      th.session.releasePhase ≠ .new ∧ th.session.reconnectDue = false ∧ th.strays = [] := by
    decide +kernel
  refine ⟨by decide +kernel,by decide +kernel,fun th hth => ?_⟩
  obtain ⟨he,hp,hd,hs⟩ := hbarred th hth
  have hb : th.Barred := ⟨⟨he,hp,hd⟩,hs⟩
  exact ⟨(hopen th hth).1,(hopen th hth).2,fun deeds => (hb.course deeds).session.episode⟩

end State
end Majordomo.Client
