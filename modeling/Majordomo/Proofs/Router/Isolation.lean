import Majordomo.Proofs.Router.Streams

/-! # The router keeps peers apart

What a peer is given depends on nothing that other peers do and on nothing that is sent to them.
-/
namespace Majordomo.Router
variable {n : Nat} {r t : Router}

/-! ## What concerns a peer -/

def Act.concerns (n : Nat) : Act → Bool
  | .receive i _ | .finish i | .leave i | .read i _ => i = n
  | .send target _ => target = Peer.identity n
  | .drain _ => false
  | .connect | .closeAll | .closeInbound => true

/-- The peer cannot tell the routers apart. -/
structure Agree (n : Nat) (r t : Router) : Prop where
  capacity : r.capacity = t.capacity
  isOpen : r.isOpen = t.isOpen
  opened : r.peers.length = t.peers.length
  peer : r.peer? n = t.peer? n

theorem Agree.step (h : Agree n r t) (a : Act) : Agree n (r.step a) (t.step a) := by
  constructor
  · rw [capacity_step, capacity_step, h.capacity]
  · rw [isOpen_step, isOpen_step, h.isOpen]
  · rw [length_peers_step, length_peers_step, h.opened]
  · cases hp : r.peer? n with
    | none =>
      have ht : t.peer? n = none := h.peer ▸ hp
      rw [peer?_step_of_none hp, peer?_step_of_none ht, h.opened]
    | some p =>
      have ht : t.peer? n = some p := h.peer ▸ hp
      rw [peer?_step hp, peer?_step ht, h.isOpen, h.capacity]

theorem after_of_not_concerns {a : Act} (ha : a.concerns n = false) (isOpen : Bool)
    (capacity : Nat) (p : Peer) : p.after n isOpen capacity a = p := by
  cases a with
  | receive | finish =>
    simp only [Act.concerns, decide_eq_false_iff_not] at ha
    exact if_neg fun h => ha h.1
  | send =>
    simp only [Act.concerns, decide_eq_false_iff_not] at ha
    exact if_neg fun h => ha h.2.symm
  | leave | read =>
    simp only [Act.concerns, decide_eq_false_iff_not] at ha
    exact if_neg ha
  | drain => rfl
  | connect | closeAll | closeInbound => cases ha

theorem Agree.skip (h : Agree n r t) {a : Act} (ha : a.concerns n = false) :
    Agree n (r.step a) t := by
  have hconnect : a ≠ .connect := by
    rintro rfl
    cases ha
  have hclose : a ≠ .closeInbound := by
    rintro rfl
    cases ha
  constructor
  · rw [capacity_step, h.capacity]
  · simp [isOpen_step, hclose, h.isOpen]
  · rw [length_peers_step, List.count_singleton, if_neg (by simpa using hconnect), Nat.add_zero,
      h.opened]
  · rw [← h.peer]
    cases hp : r.peer? n with
    | none => rw [peer?_step_of_none hp, if_neg fun h => hconnect h.1]
    | some p => rw [peer?_step hp, after_of_not_concerns ha]

theorem given_of_not_concerns {a : Act} (ha : a.concerns n = false) (r : Router) :
    r.given n a = [] := by
  cases a with
  | read i count =>
    simp only [Act.concerns, decide_eq_false_iff_not] at ha
    exact if_neg ha
  | _ => rfl

theorem Agree.waiting (h : Agree n r t) : r.waiting n = t.waiting n := by
  rw [Router.waiting, Router.waiting, h.peer]

theorem Agree.given (h : Agree n r t) (a : Act) : r.given n a = t.given n a := by
  cases a with
  | read i count =>
    by_cases hi : i = n
    · simp only [Router.given, readSome, hi, h.waiting]
    · simp only [Router.given, if_neg hi]
  | _ => rfl

/-- Whatever does not concern the peer can be left out, and the peer is given the same. -/
theorem Agree.run_filter (h : Agree n r t) (acts : List Act) :
    record (Router.given n) r acts = record (Router.given n) t (acts.filter (·.concerns n)) ∧
      Agree n (r.run acts) (t.run (acts.filter (·.concerns n))) := by
  induction acts generalizing r t with
  | nil => exact ⟨rfl,h⟩
  | cons a acts ih =>
    cases ha : a.concerns n with
    | true =>
      obtain ⟨hg,hr⟩ := ih (h.step a)
      rw [List.filter_cons_of_pos ha, record, record, h.given, hg]
      exact ⟨rfl,hr⟩
    | false =>
      obtain ⟨hg,hr⟩ := ih (h.skip ha)
      rw [List.filter_cons_of_neg (by simp [ha]), record, given_of_not_concerns ha, hg]
      exact ⟨rfl,hr⟩

/-- Two runs that differ only in what does not concern the peer give it the same. -/
theorem given_eq_of_filter_eq {acts others : List Act} (r : Router)
    (h : others.filter (·.concerns n) = acts.filter (·.concerns n)) :
    record (given n) r others = record (given n) r acts ∧
      (r.run others).waiting n = (r.run acts).waiting n := by
  have hr : Agree n r r := ⟨rfl,rfl,rfl,rfl⟩
  obtain ⟨hg,ha⟩ := hr.run_filter others
  obtain ⟨hg',ha'⟩ := hr.run_filter acts
  constructor
  · rw [hg, hg', h]
  · rw [ha.waiting, ha'.waiting, h]

/-! ## Runs from the start -/

theorem capacity_run (r : Router) (acts : List Act) : (r.run acts).capacity = r.capacity :=
  run_induction (P := fun t => t.capacity = r.capacity) rfl fun a _ t h =>
    (capacity_step t a).trans h

theorem isOpen_run (ho : r.isOpen = true) {acts : List Act} (hc : .closeInbound ∉ acts) :
    (r.run acts).isOpen = true := by
  refine run_induction (P := fun t => t.isOpen = true) ho ?_
  intro a ha t ht
  have hne : a ≠ .closeInbound := fun h => hc (h ▸ ha)
  simp [isOpen_step, ht, hne]

theorem length_peers_run (r : Router) (acts : List Act) :
    (r.run acts).peers.length = r.peers.length + acts.count .connect := by
  induction acts generalizing r with
  | nil => rfl
  | cons a acts ih =>
    rw [run_cons, ih, length_peers_step, Nat.add_assoc, ← List.count_append, List.singleton_append]

/-- The peer of a stream that was opened is served, until it leaves or all peers are forgotten. -/
theorem isServed_run {before after : List Act} (s : Router) (hn : (s.run before).connect.1 = n)
    (hleave : .leave n ∉ after) (hclose : .closeAll ∉ after) :
    (s.run (before ++ .connect :: after)).IsServed n := by
  have hnone : (s.run before).peer? n = none := List.getElem?_eq_none (Nat.le_of_eq hn)
  have hp : ((s.run before).step .connect).peer? n = some {} := by
    rw [peer?_step_of_none hnone, if_pos ⟨rfl,hn.symm⟩]
  rw [run_append, run_cons]
  apply run_induction
  · exact ⟨{},hp,rfl,fun _ => rfl⟩
  · intro a ha t ht
    exact ht.step (fun h => hleave (h ▸ ha)) (fun h => hclose (h ▸ ha))

/-- The router tags what comes in on a stream with the identity of the stream, which no other stream
has, and hands it to the broker in order. It gives to a peer what is sent to its identity, in order,
unless the peer is not there or as many messages wait for it as may wait. And whatever is sent to
others, or done by them, changes nothing of it. -/
theorem peers_are_isolated (capacity : Nat) (acts : List Act)
    (hfew : acts.count .connect < 2 ^ 64) :
    let s := start capacity
    let r := s.run acts
    let forwarded := record drained s acts ++ r.inbound
    (∀ i < acts.count .connect, ∀ j < acts.count .connect,
      Peer.identity i = Peer.identity j → i = j) ∧
    (∀ x ∈ forwarded, ∃ i < acts.count .connect, x.1 = Peer.identity i) ∧
    ∀ n < acts.count .connect,
      let bytes := record (heard n) s acts
      let read := record (given n) s acts
      -- From the stream to the broker.
      own n forwarded <+: (Framing.scan bytes).1 ∧
      (.closeInbound ∉ acts →
        own n forwarded = (Framing.scan bytes).1 ∧
        (∀ ms tail, (∀ m ∈ ms, (Protobuf.encode m).length ≤ Framing.limit) →
          bytes = ms.flatMap Framing.encode ++ tail → Framing.next tail = .incomplete →
          own n forwarded = ms) ∧
        (.finish n ∉ acts → (∀ more, (r.receive n more).isSome) ∨
          Framing.next (Framing.scan bytes).2 = .broken)) ∧
      -- From the broker to the peer.
      read.Sublist (acts.flatMap (·.sentTo n)) ∧
      read ++ r.waiting n <+: record (accepted n) s acts ∧
      (.leave n ∉ acts → read ++ r.waiting n = record (accepted n) s acts) ∧
      (∀ target m, r.accepted n (.send target m) =
        if target = Peer.identity n ∧ r.isPresent n ∧ (r.waiting n).length < max 1 capacity then [m]
        else []) ∧
      (r.waiting n).length ≤ max 1 capacity ∧
      (∀ before after, acts = before ++ .connect :: after → (s.run before).connect.1 = n →
        .leave n ∉ after → .closeAll ∉ after → .finish n ∉ acts → .closeInbound ∉ acts →
        r.isPresent n ∨ Framing.next (Framing.scan bytes).2 = .broken) ∧
      -- Whatever else happens.
      ∀ others, others.filter (·.concerns n) = acts.filter (·.concerns n) →
        record (given n) s others = read ∧ (s.run others).waiting n = r.waiting n := by
  intro s r forwarded
  have hlen : r.peers.length = acts.count .connect :=
    (length_peers_run s acts).trans (Nat.zero_add _)
  have hcap : r.capacity = max 1 capacity := capacity_run s acts
  have hopen (hc : .closeInbound ∉ acts) : r.isOpen = true := isOpen_run rfl hc
  have hforwarded : forwarded <+: record handed s acts := queue_inbound.record_isPrefix s acts
  refine ⟨?_,?_,?_⟩
  · intro i hi j hj
    exact Peer.identity_inj (Nat.lt_trans hi hfew) (Nat.lt_trans hj hfew)
  · intro x hx
    obtain ⟨i,hi,hxi⟩ := identity_of_mem_record_handed (hforwarded.subset hx)
    exact ⟨i,Nat.zero_add (acts.count .connect) ▸ hi,hxi⟩
  intro n hn bytes read
  have hp : r.peer? n = some r.peers[n] := List.getElem?_eq_getElem (hlen ▸ hn)
  have hf : Follows n (.finish n ∈ acts) bytes (own n (record handed s acts)) r :=
    (follows_of_none rfl _).run (Nat.lt_trans hn hfew)
      (by simpa [s, start] using Nat.le_of_lt hfew) id
  have hkept : read ++ r.waiting n <+: record (accepted n) s acts :=
    (queue_waiting n).record_isPrefix s acts
  refine ⟨(own_isPrefix hforwarded n).trans hf.in_order,?_,?_,hkept,?_,?_,?_,?_,
    fun others h => given_eq_of_filter_eq s h⟩
  · intro hc
    have hall : forwarded = record handed s acts :=
      record_append_held acts fun a ha t => drained_append_inbound_step t fun h => hc (h ▸ ha)
    have hown : own n forwarded = (Framing.scan bytes).1 := hall ▸ hf.complete (hopen hc)
    refine ⟨hown,?_,?_⟩
    · intro ms tail hms hbytes htail
      rw [hown, hbytes, Framing.scan_encode hms htail]
    · intro hfin
      exact hf.receives (hopen hc) hfin hp
  · exact ((List.prefix_append ..).trans hkept).sublist.trans
      (record_sublist (accepted_sublist n) s acts)
  · intro hleave
    exact record_append_held acts fun a ha t =>
      given_append_waiting_step t fun h => hleave (h ▸ ha)
  · intro target m
    rw [accepted_send, hcap]
  · exact hcap ▸ length_waiting_run (Nat.zero_le _) acts
  · intro before after hacts hopened hleave hclose hfin hc
    have hs : (s.run acts).IsServed n := hacts ▸ isServed_run s hopened hleave hclose
    exact hf.isPresent (hopen hc) hfin hs

/-- Of two peers, for each of which one message may wait, the first sends a message in two pieces and
is sent two messages before it reads, between them the second is sent one. -/
theorem peers_are_isolated_two :
    let hello : Message := [.ofText "hello"]
    let s := start 0
    let acts : List Act := [.connect, .connect, .receive 0 ((Framing.encode hello).take 7),
      .send (Peer.identity 0) [.empty], .send (Peer.identity 1) [.ofText "other"],
      .send (Peer.identity 0) [.ofText "lost"], .receive 0 ((Framing.encode hello).drop 7),
      .read 0 2]
    acts.count .connect < 2 ^ 64 ∧
    own 0 (record drained s acts ++ (s.run acts).inbound) = [hello] ∧
    record (given 0) s acts = [[.empty]] ∧
    record (given 0) s (acts.filter (·.concerns 0)) = [[.empty]] := by
  intro hello s acts
  have hfew : acts.count .connect < 2 ^ 64 := by decide
  obtain ⟨_,_,h⟩ := peers_are_isolated 0 acts hfew
  obtain ⟨_,hin,_,_,hout,_,_,_,hothers⟩ := h 0 (by decide)
  have hkept : record (accepted 0) s acts = [[.empty]] := by decide +kernel
  have hwaiting : (s.run acts).waiting 0 = [] := by decide +kernel
  have hread : record (given 0) s acts = [[.empty]] := by
    have hall := hout (by decide)
    rwa [hkept, hwaiting, List.append_nil] at hall
  have hbytes : record (heard 0) s acts = [hello].flatMap Framing.encode ++ [] := by
    decide +kernel
  have hlimit : ∀ m ∈ [hello], (Protobuf.encode m).length ≤ Framing.limit := by decide +kernel
  refine ⟨hfew,?_,hread,?_⟩
  · exact (hin (by decide)).2.1 [hello] [] hlimit hbytes rfl
  · rw [(hothers (acts.filter (·.concerns 0)) (by simp)).1, hread]

end Majordomo.Router
