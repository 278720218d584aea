import Majordomo.Proofs.Client.Rearming

/-! # How a session comes to rest

A move takes a message or an answer, lets a waiting send in, or brings the episode nearer to its
end, and by themselves the tasks make at most two more episodes begin. So in whatever order they
move, they come to rest, and letting a session settle always brings it there.
-/
namespace Majordomo.Client

def Sender.ahead : Sender → Nat
  | .starting => 4
  | .awaiting _ _ false => 3
  | .awaiting _ _ true => 2
  | .dialling | .joining _ | .forwarding .. => 1
  | .ended => 0

def Receiver.ahead : Receiver → Nat
  | .waiting => 3
  | .handed _ => 2
  | .reading _ => 1
  | .ended => 0

def Episode.ahead (e : Episode) : Nat := e.sender.ahead + e.receiver.ahead

theorem Episode.ahead_le (e : Episode) : e.ahead ≤ 7 := by
  have hs : e.sender.ahead ≤ 4 := by
    cases e.sender with
    | awaiting _ _ expired => cases expired <;> simp [Sender.ahead]
    | _ => simp [Sender.ahead]
  have hr : e.receiver.ahead ≤ 3 := by
    cases e.receiver <;> simp [Receiver.ahead]
  exact Nat.add_le_add hs hr

theorem Sender.ahead_pos {r : Sender} (h : r ≠ .ended) : 0 < r.ahead := by
  cases r with
  | awaiting _ _ expired => cases expired <;> simp [Sender.ahead]
  | ended => exact absurd rfl h
  | _ => simp [Sender.ahead]

section Turn
variable {s t : State} {e e' : Episode}

theorem Episode.ahead_quit_lt (h : e.sender ≠ .ended) : e.quit.ahead < e.ahead :=
  Nat.add_lt_add_right (Sender.ahead_pos h) _

theorem Episode.ahead_fail_lt (h : e.sender ≠ .ended) : e.fail.ahead < e.ahead :=
  ahead_quit_lt h

theorem Episode.ahead_hangUp_lt (h : e.receiver ≠ .ended) : e.hangUp.ahead < e.ahead := by
  refine Nat.add_lt_add_left ?_ _
  cases hr : e.receiver with
  | ended => exact absurd hr h
  | _ => simp [hangUp, Receiver.ahead]

/-- With every move the episode is nearer to its end, or a message has been taken. -/
theorem Turn.ahead_lt (h : Turn s e t e') :
    e'.ahead + (t.network.arrivalCount + t.queue.length) <
      e.ahead + (s.network.arrivalCount + s.queue.length) := by
  have hreceive {id : Nat} {r : Received} {n : Network} (hr : s.network.receive id = some (r,n)) :
      n.arrivalCount ≤ s.network.arrivalCount := by
    rcases Network.arrivalCount_receive hr with hlt | ⟨_,rfl⟩
    · omega
    · exact Nat.le_refl _
  have hmessage {id : Nat} {frames : Message} {n : Network}
      (hr : s.network.receive id = some (.message frames,n)) :
      n.arrivalCount + 1 = s.network.arrivalCount := by
    rcases Network.arrivalCount_receive hr with hlt | ⟨hx,_⟩
    · exact hlt
    · cases hx
  have hsinks (ids : List Nat) (n : Network) :
      (ids.foldl (fun n id => n.dropSink id) n).arrivalCount = n.arrivalCount :=
    Network.foldl_keeps (fun n id => n.arrivalCount_dropSink id) ids n
  have hdrop (ids : List Nat) (n : Network) :
      (ids.foldl (fun n id => n.drop id) n).arrivalCount = n.arrivalCount :=
    Network.foldl_keeps (fun n id => n.arrivalCount_drop id) ids n
  cases h with
  | abandon hs => exact Nat.add_lt_add_right (Episode.ahead_quit_lt (by simp [hs])) _
  | refuse hs => exact Nat.add_lt_add_right (Episode.ahead_fail_lt (by simp [hs])) _
  | hang hs => simp [Episode.ahead, hs, Sender.ahead]
  | greet hs => simp [Episode.ahead, hs, Sender.ahead, Network.arrivalCount_open]
  | expire hs => simp [Episode.ahead, hs, Sender.ahead]
  | leave hs =>
    have hn : e.sender ≠ .ended := fun hx => by simp [hx, Sender.isConnecting] at hs
    simp only [hdrop]
    exact Nat.add_lt_add_right (Episode.ahead_quit_lt hn) _
  | timeOut hs =>
    simp only [State.giveUp, Network.arrivalCount_drop]
    exact Nat.add_lt_add_right (Episode.ahead_fail_lt (by simp [hs])) _
  | reject hs _ hr | refuseOwn hs _ hr =>
    have hle := hreceive hr
    have hlt : e.fail.ahead < e.ahead := Episode.ahead_fail_lt (by simp [hs])
    simp only [State.giveUp, Network.arrivalCount_drop]
    omega
  | @hangOwn _ _ expired _ _ _ _ hs _ hr =>
    have htaken := hmessage hr
    cases expired <;> simp only [Episode.ahead, hs, Sender.ahead] <;> omega
  | @establish _ _ expired _ _ _ hs _ hw hr =>
    have htaken := hmessage hr
    cases expired <;> simp only [Episode.ahead, hs, hw, Sender.ahead, Receiver.ahead] <;> omega
  | @establishOwn _ _ expired _ _ _ _ hs _ hw hr =>
    have htaken := hmessage hr
    simp only [Network.arrivalCount_dropStream, Network.arrivalCount_open]
    cases expired <;> simp only [Episode.ahead, hs, hw, Sender.ahead, Receiver.ahead] <;> omega
  | halt hs =>
    simp only [hsinks]
    exact Nat.add_lt_add_right (Episode.ahead_quit_lt (by simp [hs])) _
  | write _ _ hq hn =>
    simp only [Network.arrivalCount_send hn, hq, List.length_cons]
    omega
  | trip hs _ hq hn =>
    have hlt : e.quit.ahead < e.ahead := Episode.ahead_quit_lt (by simp [hs])
    simp only [hsinks, Network.arrivalCount_send hn, hq, List.length_cons]
    omega
  | lose hs _ hq =>
    have hlt : e.quit.ahead < e.ahead := Episode.ahead_quit_lt (by simp [hs])
    simp only [hsinks, hq, List.length_cons]
    omega
  | excuse hr => exact Nat.add_lt_add_right (Episode.ahead_hangUp_lt (by simp [hr])) _
  | overlook hr | desist hr =>
    simp only [Network.arrivalCount_dropStream]
    exact Nat.add_lt_add_right (Episode.ahead_hangUp_lt (by simp [hr])) _
  | accept hr => simp [Episode.ahead, hr, Receiver.ahead]
  | finish hr _ hn =>
    have hle := hreceive hn
    have hlt : e.hangUp.ahead < e.ahead := Episode.ahead_hangUp_lt (by simp [hr])
    simp only [Network.arrivalCount_dropStream]
    omega
  | skip _ _ hn | count _ _ hn =>
    have htaken := hmessage hn
    dsimp only
    omega

end Turn

namespace State
variable {s t : State} {e : Episode} {task : Task}

/-- How many episodes can begin by themselves: one if another is due, or will be after the one
that is live, and one if an answer lets connecting succeed. -/
def renewals (s : State) : Nat := s.isArmed.toNat + s.isAnswered.toNat

/-- A bound on the moves of the tasks until they come to rest. An episode takes at most eight, with
the one by which it ends, and the reconnect before it one. -/
def toil (s : State) : Nat :=
  s.episode.elim 0 (·.ahead + 1) + s.reconnectDue.toNat +
    (s.network.arrivalCount + s.queue.length) + 2 * s.waiting.length + 9 * s.renewals

/-- A move makes no other episode possible, and an episode that begins is one of those that were. -/
theorem renewals_of_move (hs : s.Sound) (hm : s.move task = some t) :
    (s.episode.isNone && t.episode.isSome).toNat + t.renewals ≤ s.renewals := by
  have hv : s.apply (.move task) = t := by rw [apply, hm, Option.getD_some]
  have hpays := pays hs (.move task)
  have hanswers := (effect_apply hs.sane (.move task)).connects_add_le hs rfl
  have hsend : (Act.move task).isSend.toNat = 0 := rfl
  rw [begins, hv, hsend] at hpays
  rw [hv] at hanswers
  simp only [renewals]
  omega

theorem execute_keeps (s : State) :
    s.execute.network = s.network ∧ s.execute.queue = s.queue ∧ s.execute.waiting = s.waiting := by
  unfold execute
  split <;> exact ⟨rfl,rfl,rfl⟩

theorem toil_execute (s : State) (hi : s.episode = none) (hd : s.reconnectDue = false) :
    s.execute.episode.elim 0 (·.ahead + 1) + s.execute.reconnectDue.toNat ≤
      8 * s.execute.episode.isSome.toNat := by
  cases hc : s.canExecute with
  | true =>
    obtain ⟨he,hd',_⟩ := fresh_execute hc hd
    rw [he, hd']
    exact Nat.le_refl _
  | false =>
    rw [execute_of_not_canExecute hc, hi, hd]
    exact Nat.le_refl _

/-- Every move brings the session nearer to rest. -/
theorem toil_lt (hs : s.Sound) (hm : s.move task = some t) : t.toil < s.toil := by
  have hrenewals := renewals_of_move hs hm
  cases step_move hs.sane hm with
  | @turn _ e e' u _ he hturn =>
    have hahead := hturn.ahead_lt
    have hbody := body_settleEpisode e' u
    have hn : (u.settleEpisode e').network = u.network := (congrArg State.network hbody :)
    have hq : (u.settleEpisode e').queue = u.queue := (congrArg State.queue hbody :)
    have hw : (u.settleEpisode e').waiting = s.waiting :=
      (congrArg State.waiting hbody :).trans (congrArg State.waiting hturn.frame :)
    have hd : s.reconnectDue = false := (hs.live e he).1.notDue
    have hrest : (u.settleEpisode e').episode.elim 0 (·.ahead + 1) +
        (u.settleEpisode e').reconnectDue.toNat ≤ e'.ahead + 1 := by
      cases ho : e'.isOver with
      | false =>
        have hd' : u.reconnectDue = false := (congrArg State.reconnectDue hturn.frame :).trans hd
        rw [settleEpisode_of_not_over ho]
        simp [hd']
      | true =>
        have hone := Bool.toNat_le (u.settleEpisode e').reconnectDue
        rw [settleEpisode_of_over ho] at hone ⊢
        rw [episode_onReleased, Option.elim_none]
        omega
    simp only [toil, he, hd, Option.elim_some, Bool.toNat_false, hn, hq, hw] at hrenewals hrest ⊢
    omega
  | revive hd =>
    have hi : s.episode = none := hs.idle_of_due hd
    let s₀ := { s with reconnectDue := false, releasePhase := s.releasePhase.next .finished }
    obtain ⟨hn,hq,hw⟩ : s₀.execute.network = s.network ∧ s₀.execute.queue = s.queue ∧
      s₀.execute.waiting = s.waiting := execute_keeps s₀
    have hlive := toil_execute s₀ hi rfl
    change s₀.execute.toil < s.toil
    generalize s₀.execute = u at *
    simp only [toil, hi, hd, hn, hq, hw, Option.elim_none, Option.isNone_none, Bool.true_and,
      Bool.toNat_true] at hrenewals ⊢
    omega
  | enqueue hw =>
    simp only [toil, hw, List.length_append, List.length_cons, List.length_nil] at hrenewals ⊢
    omega

theorem lessens_toil : Lessens Sound toil :=
  fun _ _ _ hs hm => ⟨(step_move hs.sane hm).sound hs,toil_lt hs hm⟩

theorem toil_le_work (s : State) : s.toil ≤ s.work := by
  have he : s.episode.elim 0 (·.ahead + 1) ≤ 8 := by
    cases s.episode with
    | none => exact Nat.zero_le _
    | some e => exact Nat.succ_le_succ e.ahead_le
  have hd := Bool.toNat_le s.reconnectDue
  have harm := Bool.toNat_le s.isArmed
  have hanswer := Bool.toNat_le s.isAnswered
  simp only [toil, work, renewals]
  omega

/-- A session that is let settle comes to rest. -/
theorem isQuiescent_settle (hs : s.Sound) : s.settle.isQuiescent = true :=
  lessens_toil.isQuiescent_moveUpTo hs s.toil_le_work

end State
end Majordomo.Client
