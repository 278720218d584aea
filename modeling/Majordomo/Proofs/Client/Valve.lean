import Majordomo.Proofs.Client.Lag
import Majordomo.Proofs.Client.Whole

/-! # The valve of a session

The sender looks how far the replies lag behind whenever it has written a message, and ends the
episode where they lag too far. The two counters by which it looks are those of the episode: they
tell what the journal tells of its latest chapter.
-/
namespace Majordomo.Client

/-- What is noted in a move within an episode, and how it is counted. -/
theorem Turn.notes {s t : State} {e e' : Episode} (h : Turn s e t e') :
    (Grows Entry.isCalm s.journal t.journal ∧ t.sent = s.sent ∧ t.received = s.received) ∨
    (∃ payload, Grows Entry.isCalm (s.journal ++ [.counted payload]) t.journal ∧
      t.sent = s.sent ∧ t.received = s.received + 1) ∨
    (e.sender ≠ .ended ∧ ∃ o id, t.journal = s.journal ++ [.taken o] ++ [.written id o] ∧
      t.sent = s.sent + 1 ∧ t.received = s.received) ∨
    (e.sender ≠ .ended ∧ e' = e.quit ∧ ∃ o, t.journal = s.journal ++ [.taken o] ++ [.lost o] ∧
      t.sent = s.sent ∧ t.received = s.received) := by
  cases h with
  | write hs | trip hs => exact .inr (.inr (.inl ⟨by simp [hs],_,_,rfl,rfl,rfl⟩))
  | lose hs => exact .inr (.inr (.inr ⟨by simp [hs],rfl,_,rfl,rfl,rfl⟩))
  | count =>
    refine .inr (.inl ⟨_,.append (.refl _) ?_,rfl,rfl⟩)
    split
    · exact nofun
    · exact calm_deliveries _ s
  | abandon | leave | halt | excuse | overlook | accept | desist | finish | skip | expire =>
    exact .inl ⟨.refl _,rfl,rfl⟩
  | hang | greet | reject | timeOut | hangOwn => exact .inl ⟨.snoc (.refl _) rfl,rfl,rfl⟩
  | refuse | refuseOwn => exact .inl ⟨.snoc (.snoc (.refl _) rfl) rfl,rfl,rfl⟩
  | establish =>
    exact .inl ⟨.snoc (.append (.refl _) (calm_deliveries _ s)) rfl,rfl,rfl⟩
  | establishOwn =>
    exact .inl ⟨.snoc (.append (.snoc (.refl _) rfl) (calm_deliveries _ s)) rfl,rfl,rfl⟩

namespace State
variable {s s' t : State} {e e' : Episode}

/-! ## Between two episodes nothing is sent -/

theorem calm_onReleased (failed : Bool) (s : State) :
    Grows Entry.isCalm s.released.journal (s.onReleased failed).journal :=
  (grows_onReleased failed s).mono Entry.isCalm_of_isNotice

theorem calm_close (s : State) : Grows Entry.isCalm s.journal s.close.journal :=
  (grows_close s).mono Entry.isCalm_of_isNotice

/-! ## The counters -/

/-- What was noted of the latest episode: of the one that is live, else of the last that ended. -/
def latest (s : State) : List Entry :=
  if s.episode.isSome then chapter s.journal else lastChapter s.journal

/-- The counters tell how the latest episode stands, and the replies have not lagged too far
behind where the sender has not ended. -/
structure Metered (s : State) : Prop where
  sent : s.sent = s.latest.countP Entry.isWritten
  received : s.received = s.latest.countP Entry.isCounted
  rested : s.episode = none → ∀ x ∈ chapter s.journal, x.isCalm = true
  keptUp : (∀ e, s.episode = some e → e.sender ≠ .ended) →
    KeptUp s.settings.threshold s.journal
  gated : Gated s.settings.threshold s.journal

theorem countP_latest (hj : Grows Entry.isCalm s.journal s'.journal) (he : s'.episode = s.episode)
    {p : Entry → Bool} (hp : ∀ x : Entry, x.isCalm = true → p x = false) :
    s'.latest.countP p = s.latest.countP p := by
  unfold latest
  rw [he]
  split
  · exact countP_chapter_of_calm hj hp
  · rw [lastChapter_of_calm hj]

/-- What neither sends nor counts anything, and leaves the episode and the counters alone. -/
theorem Metered.calm (h : s.Metered) (hj : Grows Entry.isCalm s.journal s'.journal)
    (he : s'.episode = s.episode) (hc : s'.settings = s.settings) (hs : s'.sent = s.sent)
    (hr : s'.received = s.received) : s'.Metered where
  sent := by rw [hs, h.sent, countP_latest hj he fun _ => Entry.isWritten_of_isCalm]
  received := by rw [hr, h.received, countP_latest hj he fun _ => Entry.isCounted_of_isCalm]
  rested hi := isCalm_of_mem_chapter hj (h.rested (he ▸ hi))
  keptUp hn := by
    rw [hc]
    exact (h.keptUp (he ▸ hn)).calm hj
  gated := by
    rw [hc]
    exact h.gated.calm hj

theorem Metered.tally (h : s.Metered) (he : s.episode = some e) :
    Tally s.journal s.sent s.received := by
  have hl : s.latest = chapter s.journal := by simp [latest, he]
  exact ⟨hl ▸ h.sent,hl ▸ h.received⟩

theorem metered_settleEpisode (ht : Tally s.journal s.sent s.received)
    (hk : e.sender ≠ .ended → KeptUp s.settings.threshold s.journal)
    (hg : Gated s.settings.threshold s.journal) : (s.settleEpisode e).Metered := by
  cases ho : e.isOver with
  | false =>
    rw [settleEpisode_of_not_over ho]
    exact
      { sent := ht.written
        received := ht.counted
        rested := fun hi => by cases hi
        keptUp := fun hn => hk (hn e rfl)
        gated := hg }
  | true =>
    rw [settleEpisode_of_over ho]
    have hb := body_onReleased e.connectFailed s
    have hc : (s.onReleased e.connectFailed).settings = s.settings := (congrArg settings hb :)
    have hi : (s.onReleased e.connectFailed).episode = none := episode_onReleased ..
    have hj : Grows Entry.isCalm s.released.journal (s.onReleased e.connectFailed).journal :=
      calm_onReleased ..
    have hl : (s.onReleased e.connectFailed).latest = chapter s.journal := by
      rw [latest, hi, lastChapter_of_calm hj]
      exact lastChapter_disconnected s.journal
    have hgated : Gated s.settings.threshold s.released.journal := hg.snoc fun hd => by cases hd
    have hblank : chapter s.released.journal = [] := chapter_disconnected s.journal
    exact
      { sent := by
          rw [hl, ← ht.written]
          exact (congrArg sent hb :)
        received := by
          rw [hl, ← ht.counted]
          exact (congrArg received hb :)
        rested := fun _ => isCalm_of_mem_chapter hj (hblank ▸ nofun)
        keptUp := fun _ => hc ▸ (keptUp_disconnected _ s.journal).calm hj
        gated := hc ▸ hgated.calm hj }

end State

/-! ## What every change keeps -/

section Turn
variable {s t : State} {e e' : Episode}

theorem Turn.tally (h : Turn s e t e') (hs : Tally s.journal s.sent s.received) :
    Tally t.journal t.sent t.received := by
  rcases h.notes with ⟨hj,hsent,hreceived⟩ | ⟨payload,hj,hsent,hreceived⟩ |
    ⟨_,o,id,hj,hsent,hreceived⟩ | ⟨_,_,o,hj,hsent,hreceived⟩ <;> rw [hsent, hreceived]
  · exact hs.calm hj
  · exact (hs.snoc (x := .counted payload) nofun).calm hj
  · rw [hj]
    exact (hs.snoc (x := .taken o) nofun).snoc (x := .written id o) nofun
  · rw [hj]
    exact (hs.snoc (x := .taken o) nofun).snoc (x := .lost o) nofun

/-- Where a sender goes on, the replies have not lagged too far behind in its episode. -/
theorem Turn.keptUp (h : Turn s e t e') (hs : Tally s.journal s.sent s.received)
    (ht : t.isTripped = false) (hk : KeptUp s.settings.threshold s.journal)
    (hn : e'.sender ≠ .ended) :
    KeptUp s.settings.threshold t.journal := by
  rcases h.notes with ⟨hj,_⟩ | ⟨payload,hj,_⟩ | ⟨_,o,id,hj,_⟩ | ⟨_,rfl,_⟩
  · exact hk.calm hj
  · exact (hk.snoc_of_not_isWritten rfl).calm hj
  · have hc : t.settings = s.settings := (congrArg State.settings h.frame :)
    have hlag : lag t.journal ≤ s.settings.threshold := by
      rw [(h.tally hs).lag_eq, ← hc]
      simpa [State.isTripped] using ht
    rw [hj] at hlag ⊢
    exact .snoc (fun _ => hk.snoc_of_not_isWritten rfl) hlag
  · exact absurd rfl hn

/-- A message leaves the queue only where the sender goes on. -/
theorem Turn.gated (h : Turn s e t e')
    (hk : e.sender ≠ .ended → KeptUp s.settings.threshold s.journal)
    (hg : Gated s.settings.threshold s.journal) : Gated s.settings.threshold t.journal := by
  rcases h.notes with ⟨hj,_⟩ | ⟨payload,hj,_⟩ | ⟨hs,o,id,hj,_⟩ | ⟨hs,_,o,hj,_⟩
  · exact hg.calm hj
  · exact Gated.calm (hg.snoc fun hd => by cases hd) hj
  · rw [hj]
    exact (hg.snoc fun _ => hk hs).snoc fun _ => (hk hs).snoc_of_not_isWritten rfl
  · rw [hj]
    exact (hg.snoc fun _ => hk hs).snoc fun _ => (hk hs).snoc_of_not_isWritten rfl

end Turn

namespace State
variable {s s' t : State} {e e' : Episode}

theorem Metered.kept (h : s.Metered) (he : s.episode = some e) (hn : e.sender ≠ .ended) :
    KeptUp s.settings.threshold s.journal :=
  h.keptUp fun _ he' => Option.some.inj (he.symm.trans he') ▸ hn

theorem Metered.turn (h : s.Metered) (hs : s.Sound) (he : s.episode = some e)
    (ht : Turn s e t e') : (t.settleEpisode e').Metered := by
  have hc : t.settings = s.settings := (congrArg State.settings ht.frame :)
  have htally : Tally s.journal s.sent s.received := h.tally he
  have hkept (hn : e.sender ≠ .ended) : KeptUp s.settings.threshold s.journal := h.kept he hn
  refine metered_settleEpisode (ht.tally htally) (fun hn => ?_) (hc ▸ ht.gated hkept h.gated)
  have hvalve : t.isTripped = false := (ht.live (hs.live e he).1).valve hn
  exact hc ▸ ht.keptUp htally hvalve (hkept fun hx => hn (ht.sender_ended hx)) hn

/-- An episode begins with nothing written and nothing counted. -/
theorem Metered.execute (h : s.Metered) (hi : s.episode = none) : s.execute.Metered := by
  cases hc : s.canExecute with
  | false => rwa [execute_of_not_canExecute hc]
  | true =>
    rw [execute_of_canExecute hc]
    have hnone {p : Entry → Bool} (hp : ∀ x : Entry, x.isCalm = true → p x = false) :
        (chapter s.journal).countP p = 0 :=
      List.countP_eq_zero.mpr fun x hx => by simp [hp x (h.rested hi x hx)]
    exact
      { sent := (hnone fun _ => Entry.isWritten_of_isCalm).symm
        received := (hnone fun _ => Entry.isCounted_of_isCalm).symm
        rested := fun hx => by cases hx
        keptUp := fun _ => h.keptUp fun e he => by cases hi.symm.trans he
        gated := h.gated }

theorem Metered.close (h : s.Metered) : s.close.Metered := by
  rcases s.body_close with hb | hb <;>
    exact h.calm (calm_close s) (episode_close s) (congrArg State.settings hb :)
      (congrArg State.sent hb :) (congrArg State.received hb :)

/-- A write that has waited is counted when it is made. -/
theorem Metered.put {o : Outbound} (h : s.Metered) (he : s.episode = some e)
    (hput : Put s e o t e') : (t.settleEpisode e').Metered := by
  have htally : Tally s.journal s.sent s.received := h.tally he
  cases hput with
  | @write manager session _ hs hn hg =>
    have hk := h.kept he (by simp [hs])
    have ht := htally.snoc (x := .written (s.route manager session o.target) o) (by simp)
    refine metered_settleEpisode ht (fun _ => .snoc (fun _ => hk) ?_) (h.gated.snoc fun _ => hk)
    rw [ht.lag_eq]
    exact hg
  | trip hs hn =>
    exact metered_settleEpisode (htally.snoc (x := .written _ o) (by simp))
      (fun hn => absurd rfl hn) (h.gated.snoc fun _ => h.kept he (by simp [hs]))
  | lose hs =>
    exact metered_settleEpisode (htally.snoc (x := .lost o) (by simp))
      (fun hn => absurd rfl hn) (h.gated.snoc fun _ => h.kept he (by simp [hs]))

theorem Metered.stint {hand hand' : Option Outbound} (h : s.Metered) (hs : s.Sound)
    (he : s.episode = some e) (hst : Stint hand s e hand' t e') :
    (t.settleEpisode e').Metered := by
  have htally : Tally s.journal s.sent s.received := h.tally he
  cases hst with
  | turn ht => exact h.turn hs he ht
  | misfire hx => exact metered_settleEpisode htally (fun _ => h.kept he (by simp [hx])) h.gated
  | @take _ _ o _ _ hx =>
    have hk := h.kept he (by simp [hx])
    exact metered_settleEpisode (htally.snoc (x := .taken o) (by simp))
      (fun _ => hk.snoc_of_not_isWritten rfl) (h.gated.snoc fun _ => hk)
  | put _ hput => exact h.put he hput

end State
end Majordomo.Client
