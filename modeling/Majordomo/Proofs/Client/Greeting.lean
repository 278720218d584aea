import Majordomo.Proofs.Client.Acts
import Majordomo.Proofs.Client.Halves
import Majordomo.Proofs.Client.Lag

/-! # A session that is not accepted yet

Until connecting has succeeded or failed nothing has come of an episode. All that time a sender
that has greeted the session manager has the half to receive of a connection to it, so that an
answer reaches it.
-/
namespace Majordomo

def Link.facing (l : Link) : String × Bool := (l.address,l.streamHeld)

namespace Client

/-! ## What comes of an episode -/

def Entry.isOutcome : Entry → Bool
  | .delivered .. | .event (.connected _) | .event (.connectFailed _) => true
  | _ => false

/-- What has come of the episode to which the latest chapter belongs. -/
def outcome (l : List Entry) : List Entry := (chapter l).filter Entry.isOutcome

section
variable {l l' m : List Entry}

theorem outcome_disconnected (l : List Entry) : outcome (l ++ [.event .disconnected]) = [] := by
  rw [outcome, chapter_disconnected]
  rfl

theorem outcome_append (l : List Entry) (hm : .event .disconnected ∉ m) :
    outcome (l ++ m) = outcome l ++ m.filter Entry.isOutcome := by
  induction m using List.reverseRecOn with
  | nil => simp
  | append_singleton m x ih =>
    obtain ⟨hm,hx⟩ : .event .disconnected ∉ m ∧ x ≠ .event .disconnected := by
      simpa [eq_comm] using hm
    rw [← List.append_assoc, outcome, chapter_snoc _ hx, List.filter_append, ← outcome, ih hm,
      List.filter_append, List.append_assoc]

theorem outcome_snoc (l : List Entry) {x : Entry} (hx : x.isOutcome = false)
    (hd : x ≠ .event .disconnected) : outcome (l ++ [x]) = outcome l := by
  rw [outcome_append l (by simpa [eq_comm] using hd), List.filter_singleton, hx]
  exact List.append_nil _

theorem outcome_deliveries (l : List Entry) (payload : String) (s : State) :
    outcome (l ++ s.deliveries payload) = outcome l ++ s.deliveries payload := by
  unfold State.deliveries
  cases s.listener with
  | none => simp
  | some k =>
    rw [outcome_append _ (by simp)]
    rfl

theorem Entry.isOutcome_of_isOutside {x : Entry} (h : x.isOutside = true) :
    x.isOutcome = false := by
  cases x with
  | event e => cases e <;> first | rfl | cases h
  | _ => first | rfl | cases h

/-- What no task of an episode does adds nothing to what comes of it. -/
theorem Grows.outcome_eq (h : Grows Entry.isOutside l l') : outcome l' = outcome l := by
  obtain ⟨m,hm,rfl⟩ := h
  have hd : .event .disconnected ∉ m := fun hx => by cases hm _ hx
  have hnone : m.filter Entry.isOutcome = [] := List.filter_eq_nil_iff.mpr fun x hx => by
    simp [Entry.isOutcome_of_isOutside (hm x hx)]
  rw [outcome_append l hd, hnone, List.append_nil]

end

/-! ## One move -/

section Turn
variable {s t : State} {e e' : Episode} {manager deadline : Nat} {expired : Bool}

/-- Before connecting has succeeded or failed nothing comes of a move. -/
theorem Turn.outcome_of_connecting (h : Turn s e t e') (hv : e.Valid)
    (hc : e'.sender.isConnecting = true)
    (ho : e.sender.isConnecting = true → outcome s.journal = []) : outcome t.journal = [] := by
  have hreceiver := hv.connecting
  cases h with
  | hang hs | greet hs | hangOwn hs =>
    exact (outcome_snoc _ (x := .dialled _) rfl nofun).trans (ho (by rw [hs]; rfl))
  | excuse => exact ho hc
  | expire hs => exact ho (by rw [hs]; rfl)
  | write hs | establish hs | establishOwn hs => simp_all [Sender.isConnecting]
  | overlook hr | accept hr | desist hr | finish hr | skip hr | count hr =>
    simpa [hr] using hreceiver hc
  | _ => cases hc

/-- A sender that has greeted the session manager keeps the half to receive. -/
theorem Turn.facing (h : Turn s e t e') (hv : e.Valid)
    (hs : e'.sender = .awaiting manager deadline expired)
    (hf : ∀ deadline expired, e.sender = .awaiting manager deadline expired →
      s.network.part? Link.facing manager = some (s.settings.server,true)) :
    t.network.part? Link.facing manager = some (s.settings.server,true) := by
  have hreceiver := hv.connecting
  cases h with
  | greet =>
    obtain ⟨rfl,_⟩ := Sender.awaiting.inj hs
    rw [Network.part?_open, if_pos rfl]
    rfl
  | expire hs' =>
    obtain ⟨rfl,_⟩ := Sender.awaiting.inj hs
    exact hf _ _ hs'
  | excuse => exact hf _ _ hs
  | accept hr | overlook hr | desist hr | finish hr | skip hr | count hr =>
    have hc : e.sender.isConnecting = true := by
      change e.sender = _ at hs
      rw [hs]
      rfl
    simpa [hr] using hreceiver hc
  | write hs' => simp_all
  | _ => cases hs

end Turn

/-! ## Whole runs -/

namespace State
variable {s s' : State} {e : Episode}

/-- Nothing has come of an episode that is not accepted, and an answer can reach it. -/
structure Poised (s : State) : Prop where
  hushed : ∀ e, s.episode = some e → e.sender.isConnecting = true → outcome s.journal = []
  idle : s.episode = none → outcome s.journal = []
  facing : ∀ e manager deadline expired, s.episode = some e →
    e.sender = .awaiting manager deadline expired →
      s.network.part? Link.facing manager = some (s.settings.server,true)

theorem Poised.of_same (h : s.Poised) (he : s'.episode = s.episode)
    (hj : Grows Entry.isOutside s.journal s'.journal) (hset : s'.settings = s.settings)
    (hn : ∀ k, s'.network.part? Link.facing k = s.network.part? Link.facing k) : s'.Poised where
  hushed e hs hc := by
    rw [hj.outcome_eq]
    exact h.hushed e (he ▸ hs) hc
  idle hi := by
    rw [hj.outcome_eq]
    exact h.idle (he ▸ hi)
  facing e manager deadline expired hs ha := by
    rw [hn, hset]
    exact h.facing e manager deadline expired (he ▸ hs) ha

theorem poised_settleEpisode
    (ho : e.sender.isConnecting = true → outcome s.journal = [])
    (hf : ∀ manager deadline expired, e.sender = .awaiting manager deadline expired →
      s.network.part? Link.facing manager = some (s.settings.server,true)) :
    (s.settleEpisode e).Poised := by
  cases hover : e.isOver with
  | true =>
    have hi : (s.settleEpisode e).episode = none := by
      rw [settleEpisode_of_over hover]
      exact episode_onReleased ..
    refine ⟨fun _ he => (by cases hi.symm.trans he),fun _ => ?_,
      fun _ _ _ _ he => (by cases hi.symm.trans he)⟩
    rw [settleEpisode_of_over hover, (grows_outside (grows_onReleased _ s)).outcome_eq]
    exact outcome_disconnected _
  | false =>
    rw [settleEpisode_of_not_over hover]
    refine ⟨fun _ he hc => ?_,fun hi => (by cases hi),fun _ _ _ _ he ha => ?_⟩
    · cases he
      exact ho hc
    · cases he
      exact hf _ _ _ ha

theorem poised_execute (hi : s.episode = none) (h : s.Poised) : s.execute.Poised := by
  cases hc : s.canExecute with
  | true =>
    rw [execute_of_canExecute hc]
    refine ⟨fun _ _ _ => h.idle hi,fun hi => (by cases hi),fun _ _ _ _ he ha => ?_⟩
    cases he
    cases ha
  | false => rwa [execute_of_not_canExecute hc]

theorem Step.poised {task : Task} (hstep : Step s task s') (hs : s.Sound) (h : s.Poised) :
    s'.Poised := by
  cases hstep with
  | @turn _ e e' t _ he ht =>
    have hv : e.Valid := (hs.live e he).1.valid
    have hset : t.settings = s.settings := (congrArg State.settings ht.frame :)
    refine poised_settleEpisode (fun hc => ht.outcome_of_connecting hv hc (h.hushed e he))
      fun manager deadline expired ha => ?_
    rw [hset]
    exact ht.facing hv ha fun deadline expired => h.facing e manager deadline expired he
  | revive hd => exact poised_execute (hs.idle_of_due hd) { h with }
  | enqueue => exact h.of_same rfl (.snoc (.snoc (.refl _) rfl) rfl) rfl fun _ => rfl

theorem Change.poised (hc : Change s s') (hs : s.Sound) (h : s.Poised) : s'.Poised := by
  cases hc with
  | step hstep => exact hstep.poised hs h
  | request =>
    have hb := body_requestSend s
    have hn : s.requestSend.network = s.network := (congrArg State.network hb :)
    exact h.of_same (episode_requestSend s) (grows_outside (grows_requestSend s))
      (congrArg State.settings hb :) fun _ => by rw [hn]
  | push => exact h.of_same rfl (.snoc (.refl _) rfl) rfl fun _ => rfl
  | network event =>
    exact h.of_same rfl (.refl _) rfl
      (Network.part?_onEvent event (fun _ _ => rfl) (fun _ => rfl) fun _ => rfl)
  | wait | suppress | listen | tick | shutdown => exact h.of_same rfl (.refl _) rfl fun _ => rfl

theorem Poised.close (h : s.Poised) : s.close.Poised := by
  have hn : s.close.network = s.network := network_close s
  exact h.of_same (episode_close s) (grows_outside (grows_close s)) (settings_close s) fun _ => by
    rw [hn]

theorem poised_start (c : Settings) (m : Mode) (monitor : Monitor) (listener : Option Nat) :
    (start c m monitor listener).Poised :=
  poised_execute rfl ⟨nofun,fun _ => rfl,nofun⟩

theorem poised_run (hs : s.Sound) (h : s.Poised) (acts : List Act) : (s.run acts).Poised := by
  have hboth : (s.run acts).Sound ∧ (s.run acts).Poised :=
    run_invariant (P := fun s => s.Sound ∧ s.Poised)
      (fun _ _ _ hc ⟨hs,h⟩ => ⟨hc.sound hs,hc.poised hs h⟩) (fun _ _ ⟨hs,h⟩ => ⟨hs.close,h.close⟩)
      hs.sane ⟨hs,h⟩
  exact hboth.2

end State
end Client
end Majordomo
