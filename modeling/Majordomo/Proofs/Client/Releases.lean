import Majordomo.Proofs.Client.Episodes

/-! # When an episode is released

Every task of an episode and every connection that it opens is in use until it is given up. The
episode is released with the last of them, once, and only then can the next one begin.
-/
namespace Majordomo.Client

theorem State.count_events (x : Event) (s : State) :
    s.events.count x = s.journal.count (.event x) := by
  rw [events_eq]
  induction s.journal with
  | nil => rfl
  | cons y l ih =>
    cases y with
    | event z =>
      rw [List.filterMap_cons_some (by rfl), List.count_cons, List.count_cons, ih]
      simp
    | _ => rw [List.filterMap_cons_none (by rfl), List.count_cons_of_ne (by simp), ih]

section Turn
variable {s t : State} {e e' : Episode}

/-- Only a sender that is connecting dials. -/
theorem Turn.undialled (h : Turn s e t e') (hs : e.sender.isConnecting = false) :
    Grows (!·.isDialled) s.journal t.journal := by
  have hdelivered (payload : String) :
      ∀ x ∈ s.deliveries payload, (!x.isDialled) = true := by
    unfold State.deliveries
    cases s.listener <;> simp [Entry.isDialled]
  cases h with
  | halt | excuse | overlook | accept | desist | finish | skip => exact .refl _
  | write | trip | lose => exact .snoc (.snoc (.refl _) rfl) rfl
  | count =>
    refine Grows.trans (.snoc (.refl _) rfl) ⟨_,fun x hx => ?_,rfl⟩
    split at hx
    · cases hx
    · exact hdelivered _ x hx
  | _ => simp_all [Sender.isConnecting]

end Turn

namespace State
variable {s t : State} {e e' : Episode} {a : Act}

theorem undialled_of_isOutside {l l' : List Entry} (h : Grows Entry.isOutside l l') :
    Grows (!·.isDialled) l l' := by
  refine h.mono fun x hx => ?_
  cases x with
  | dialled => cases hx
  | _ => rfl

theorem undialled_settleEpisode (e : Episode) (s : State) :
    Grows (!·.isDialled) s.journal (s.settleEpisode e).journal := by
  cases ho : e.isOver with
  | false =>
    rw [settleEpisode_of_not_over ho]
    exact .refl _
  | true =>
    rw [settleEpisode_of_over ho]
    exact Grows.trans (.snoc (.refl _) rfl)
      (undialled_of_isOutside (grows_outside (grows_onReleased e.connectFailed s)))

/-- Nobody dials where no sender is connecting. -/
theorem Effect.undialled (h : Effect s a t)
    (hn : ∀ e, s.episode = some e → e.sender.isConnecting = false) :
    Grows (!·.isDialled) s.journal t.journal := by
  rcases h.cases with ⟨e,_,_,_,he,hturn,rfl⟩ | ⟨_,_,rfl⟩ | hb
  · exact (hturn.undialled (hn e he)).trans (undialled_settleEpisode ..)
  · unfold execute
    split <;> exact .refl _
  · exact undialled_of_isOutside hb.journal

theorem Effect.dials (h : Effect s a t) {l : List Entry} (hj : t.journal = s.journal ++ l)
    {address : String} (hd : .dialled address ∈ l) :
    ∃ e, s.episode = some e ∧ e.sender.isConnecting = true := by
  by_cases hx : ∃ e, s.episode = some e ∧ e.sender.isConnecting = true
  · exact hx
  · have hnone : ∀ e, s.episode = some e → e.sender.isConnecting = false := fun e he =>
      Bool.eq_false_iff.mpr fun hs => hx ⟨e,he,hs⟩
    obtain ⟨m,hm,hj'⟩ := h.undialled hnone
    obtain rfl : l = m := List.append_cancel_left (hj.symm.trans hj')
    cases hm _ hd

/-! ## How often an episode is released -/

/-- An episode that is live, with what has been told of those that ended, before an act and after
it. -/
theorem Effect.releases (h : Effect s a t) (hs : s.Sound) :
    t.events.count .disconnected + t.episode.isSome.toNat =
      s.events.count .disconnected + s.episode.isSome.toNat +
        (s.episode.isNone && t.episode.isSome).toNat := by
  rcases h.cases with ⟨e,e',u,_,he,hturn,rfl⟩ | ⟨_,hd,rfl⟩ | hb
  · have hcount : u.events.count .disconnected = s.events.count .disconnected :=
      hturn.count_events nofun nofun
    rw [he, ← hcount]
    cases ho : e'.isOver with
    | false =>
      rw [settleEpisode_of_not_over ho]
      exact rfl
    | true =>
      rw [settleEpisode_of_over ho, episode_onReleased, count_events, count_events,
        (grows_onReleased e'.connectFailed u).count_eq rfl, List.count_append]
      exact rfl
  · have hi : s.episode = none := hs.idle_of_due hd
    unfold execute
    split
    · simp only [hi]
      rfl
    · rw [hi]
      rfl
  · rw [count_events, count_events, hb.journal.count_eq rfl, hb.episode]
    cases s.episode <;> rfl

/-- Every episode that has begun is live or has been released once. -/
theorem releases_run (hs : s.Sound) (acts : List Act) :
    (s.run acts).events.count .disconnected + (s.run acts).episode.isSome.toNat =
      s.events.count .disconnected + s.episode.isSome.toNat + s.beginnings acts := by
  induction acts generalizing s with
  | nil => rfl
  | cons a acts ih =>
    have hone := (effect_apply hs.sane a).releases hs
    rw [run_cons, ih (hs.apply a), hone, beginnings, begins, Nat.add_assoc]

/-- An act in an episode: it goes on, as it was or with a move of a task, or it is released. -/
theorem Effect.goes_on_or_ends (h : Effect s a t) (hs : s.Sound) (he : s.episode = some e) :
    (∃ e', t.episode = some e' ∧ (e' = e ∨ ∃ u, Turn s e u e' ∧ t = { u with episode := e' })) ∨
      ∃ u e', Turn s e u e' ∧ e'.isOver = true ∧ t = u.onReleased e'.connectFailed := by
  rcases h.cases with ⟨e₀,e',u,_,he₀,hturn,rfl⟩ | ⟨_,hd,_⟩ | hb
  · obtain rfl : e = e₀ := Option.some.inj (he.symm.trans he₀)
    cases ho : e'.isOver with
    | false =>
      have hv : u.settleEpisode e' = { u with episode := e' } := settleEpisode_of_not_over ho u
      exact .inl ⟨e',by rw [hv],.inr ⟨u,hturn,hv⟩⟩
    | true => exact .inr ⟨u,e',hturn,ho,settleEpisode_of_over ho u⟩
  · cases he.symm.trans (hs.idle_of_due hd)
  · exact .inl ⟨e,hb.episode.trans he,.inl rfl⟩

/-- Episodes do not overlap. Each that has begun is live or has been released, once. What is in
use of the one that is live is a task that has not ended or a connection of its sender; all halves
of connections that are held are its own. With the act by which the last of it is given up, both
tasks have ended and no half is held, and only then it is released. The next begins after that, and
nobody dials but the sender of the one that is live. -/
theorem episodes_released_once (c : Settings) (m : Mode) (monitor : Monitor)
    (listener : Option Nat) (acts : List Act) :
    let s := start c m monitor listener
    let t := s.run acts
    let begun := s.episode.isSome.toNat + s.beginnings acts
    t.events.count .disconnected + t.episode.isSome.toNat = begun ∧
    (∀ e, t.episode = some e →
      (e.inUse = e.sender.inUse + e.receiver.inUse ∧ 0 < e.inUse) ∧
      ∀ k, (t.network.sinkHeld k = true → k ∈ e.sender.sinks) ∧
        (t.network.streamHeld k = true → k ∈ e.streams)) ∧
    (t.episode = none → ∀ k, t.network.sinkHeld k = false ∧ t.network.streamHeld k = false) ∧
    (∀ e a, t.episode = some e →
      (∃ e', (t.apply a).episode = some e' ∧
        (e' = e ∨ ∃ u, Turn t e u e' ∧ t.apply a = { u with episode := e' })) ∨
      ∃ u e', Turn t e u e' ∧ (e'.sender = .ended ∧ e'.receiver = .ended ∧ e'.inUse = 0) ∧
        (∀ k, u.network.sinkHeld k = false ∧ u.network.streamHeld k = false) ∧
        t.apply a = u.onReleased e'.connectFailed) ∧
    (∀ a, t.begins a = true →
      t.episode = none ∧ t.events.count .disconnected = begun ∧
      (t.apply a).episode = some {} ∧ (t.apply a).network = t.network) ∧
    ∀ a l address, (t.apply a).journal = t.journal ++ l → .dialled address ∈ l →
      ∃ e, t.episode = some e ∧ e.sender.isConnecting = true := by
  intro s t begun
  have hs : t.Sound := sound_run (sound_start ..) acts
  have htidy : t.Tidy := tidy_run (sound_start ..) (tidy_start ..) acts
  have hcount : t.events.count .disconnected + t.episode.isSome.toNat = begun := by
    have hstart : s.events.count .disconnected = 0 := by
      rw [events_eq, journal_start]
      rfl
    have hrun := releases_run (sound_start c m monitor listener) acts
    rwa [hstart, Nat.zero_add] at hrun
  refine ⟨hcount,fun e he => ?_,htidy.idle,fun e a he => ?_,fun a hb => ?_,fun a l address hj hd => ?_⟩
  · obtain ⟨hl,ho⟩ := hs.live e he
    have hpos : 0 < e.inUse := Nat.pos_of_ne_zero (by simpa [Episode.isOver] using ho)
    have howns : e.Owns t.network := htidy.live e he
    exact ⟨⟨hl.valid.inUse,hpos⟩,fun k => ⟨howns.sink k,howns.stream k⟩⟩
  · refine ((effect_apply hs.sane a).goes_on_or_ends hs he).imp_right ?_
    rintro ⟨u,e',hturn,ho,hv⟩
    have hends := (hturn.valid (hs.live e he).1.valid).isOver_iff.mp ho
    have howns : e'.Owns u.network := hturn.owns (htidy.live e he)
    exact ⟨u,e',hturn,⟨hends.1,hends.2,by simpa [Episode.isOver] using ho⟩,
      howns.none_held hends.1 hends.2,hv⟩
  · obtain ⟨_,hd,_⟩ := (begins_iff hs).mp hb
    obtain ⟨hfresh,_,hn⟩ := fresh_of_begins hs hb
    have hi : t.episode = none := hs.idle_of_due hd
    rw [hi] at hcount
    exact ⟨hi,hcount,hfresh.episode,hn⟩
  · exact (effect_apply hs.sane a).dials hj hd

/-- A session that has a connection of its own loses it: the sender gives up both connections
after the receiver has ended, and with that the episode is released. -/
theorem episodes_released_once_own :
    let s := start .sample .accept {} none
    let acts : List Act :=
      [.move .sender, .network (.offer 0 (.message (Wire.clientMessage (.ofText "session-manager")
        [.ofText "[\"SESSION_INITIATED\",\"client-1\",\"\",\"session:9000\"]"]))),
        .move .sender, .move .receiver, .network (.hangUp 1), .move .receiver]
    let t := s.run acts
    (t.episode = some ⟨.forwarding 0 (some 1),.ended,3,true,false⟩ ∧
      t.events.count .disconnected = 0) ∧
      (t.apply (.move .sender)).events.count .disconnected = 1 ∧
      ∀ k, (t.apply (.move .sender)).network.sinkHeld k = false := by
  intro s acts t
  obtain ⟨he,hidle,hbegun,hmore⟩ :
      t.episode = some ⟨.forwarding 0 (some 1),.ended,3,true,false⟩ ∧
      (t.apply (.move .sender)).episode = none ∧
      s.episode.isSome.toNat + s.beginnings acts = 1 ∧
      s.episode.isSome.toNat + s.beginnings (acts ++ [.move .sender]) = 1 := by
    decide +kernel
  obtain ⟨hcount,_⟩ := episodes_released_once .sample .accept {} none acts
  obtain ⟨hcount',_,hnone,_⟩ :=
    episodes_released_once .sample .accept {} none (acts ++ [.move .sender])
  have hrun : s.run (acts ++ [.move .sender]) = t.apply (.move .sender) :=
    run_append s acts [.move .sender]
  have hlive : t.episode.isSome.toNat = 1 := by rw [he]; rfl
  have hover : (t.apply (.move .sender)).episode.isSome.toNat = 0 := by rw [hidle]; rfl
  have hbefore : t.events.count .disconnected + t.episode.isSome.toNat = 1 := hcount.trans hbegun
  have hafter : (t.apply (.move .sender)).events.count .disconnected +
      (t.apply (.move .sender)).episode.isSome.toNat = 1 := by
    rw [← hrun]
    exact hcount'.trans hmore
  refine ⟨⟨he,by omega⟩,by omega,fun k => ?_⟩
  rw [← hrun]
  exact (hnone (hrun ▸ hidle) k).1

/-- A send finds the session paused and is interrupted. Before it asks for an episode another send
has done so, and that episode is established. -/
def overtaken : List Deed := [
  .act (.move .sender), .act (.move .receiver),
  .look false 0 ⟨"echo","a"⟩,
  .act (.send 1 ⟨"echo","b"⟩), .act (.network (.mode .accept)), .act (.move .reconnect),
  .act (.move .sender), .accepts 0, .act (.move .sender), .act (.move .receiver),
  .resume 0 true]

/-- The sender fails to write and gives the queue back, and before the receiver stops the episode
that the send has asked for begins and opens a connection. -/
theorem episodes_overlap :
    let th := (Threads.start .sample .refuse {} none).course (overtaken ++ [
      .act (.network (.stopReading 0)), .act (.move .sender), .act (.move .sender),
      .act (.move .reconnect), .act (.move .sender)])
    (th.session.closing = false ∧ th.session.isCancelled = false) ∧
      th.session.episode = some ⟨.awaiting 1 1000 false,.waiting,3,false,false⟩ ∧
      th.strays = [⟨.ended,.reading 0,1,true,false⟩] ∧
      th.session.network.streamHeld 0 = true ∧ th.session.network.sinkHeld 1 = true ∧
      th.session.events.count .disconnected = 1 := by
  decide +kernel

end State
end Majordomo.Client
