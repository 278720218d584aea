import Majordomo.Proofs.Router.Deliveries

/-! # What the broker hears

Whatever comes in on a stream is handed to the broker under the identity of the peer that opened the
stream, message by message, as long as the router reads it.
-/
namespace Majordomo.Router
variable {r : Router} {n : Nat}

/-! ## Under one identity -/

def own (n : Nat) (tagged : List (Frame × Message)) : List Message :=
  (tagged.filter (·.1 = Peer.identity n)).map (·.2)

theorem own_append (n : Nat) (xs ys : List (Frame × Message)) :
    own n (xs ++ ys) = own n xs ++ own n ys := by
  simp [own]

theorem own_isPrefix {xs ys : List (Frame × Message)} (h : xs <+: ys) (n : Nat) :
    own n xs <+: own n ys := (h.filter _).map _

theorem own_self (n : Nat) (ms : List Message) : own n (ms.map (Peer.identity n,·)) = ms := by
  simp [own, List.filter_map, Function.comp_def]

theorem own_of_ne {i : Nat} (h : Peer.identity i ≠ Peer.identity n) (ms : List Message) :
    own n (ms.map (Peer.identity i,·)) = [] := by
  simp [own, List.filter_map, Function.comp_def, h]

/-! ## From the streams to the broker -/

theorem handed_cases (r : Router) (a : Act) :
    r.handed a = [] ∨
    ∃ i bytes p, a = .receive i bytes ∧ r.peer? i = some p ∧ p.reading = true ∧
      r.handed a = ((p.hear bytes).gathered r.isOpen).map (Peer.identity i,·) := by
  cases a with
  | receive i bytes =>
    rw [handed]
    cases hp : r.peer? i with
    | none => exact .inl rfl
    | some p =>
      cases hr : p.reading with
      | false => exact .inl (by simp [hr])
      | true => exact .inr ⟨i,bytes,p,rfl,hp,hr,by simp [hr]⟩
  | _ => exact .inl rfl

theorem handed_of_closed (h : r.isOpen = false) (a : Act) : r.handed a = [] := by
  rcases handed_cases r a with hn | ⟨i,bytes,p,_,_,_,hh⟩
  · exact hn
  · rw [hh, h]
    rfl

theorem identity_of_mem_handed {a : Act} {x : Frame × Message} (h : x ∈ r.handed a) :
    ∃ i < r.peers.length, x.1 = Peer.identity i := by
  rcases handed_cases r a with hn | ⟨i,bytes,p,_,hp,_,hh⟩
  · rw [hn] at h
    cases h
  · rw [hh] at h
    obtain ⟨m,_,rfl⟩ := List.mem_map.mp h
    exact ⟨i,(List.getElem?_eq_some_iff.mp hp).1,rfl⟩

/-- Only streams that were opened bring messages. -/
theorem identity_of_mem_record_handed {acts : List Act} {x : Frame × Message}
    (h : x ∈ record handed r acts) :
    ∃ i < r.peers.length + acts.count .connect, x.1 = Peer.identity i := by
  induction acts generalizing r with
  | nil => cases h
  | cons a acts ih =>
    rw [← List.singleton_append, List.count_append, ← Nat.add_assoc, ← length_peers_step]
    rcases List.mem_append.mp h with h | h
    · obtain ⟨i,hi,hx⟩ := identity_of_mem_handed h
      have hl := length_peers_step r a
      exact ⟨i,by omega,hx⟩
    · exact ih h

/-- What is handed to the broker waits in a queue, which is shut when the broker takes no more. -/
theorem queue_inbound :
    Queue handed drained (·.inbound) fun r => r.isOpen = false ∧ r.inbound = [] where
  moves r a := by
    by_cases ha : a = .closeInbound
    · exact .inr ⟨ha ▸ rfl,ha ▸ ⟨rfl,rfl⟩⟩
    · exact .inl (drained_append_inbound_step r ha)
  shut_step r a h := by
    constructor
    · rw [isOpen_step, h.1, Bool.false_and]
    · by_cases ha : a = .closeInbound
      · rw [ha]
        rfl
      · have hq := drained_append_inbound_step r ha
        rw [h.2, handed_of_closed h.1] at hq
        exact (List.append_eq_nil_iff.mp hq).2
  output_of_shut r a h := by
    cases a with
    | drain count => simp [drained, drainSome, h.2]
    | _ => rfl
  held_of_shut r h := h.2

/-! ## One stream -/

def heard (n : Nat) (r : Router) : Act → List UInt8
  | .receive i bytes => if i = n ∧ (r.receive i bytes).isSome then bytes else []
  | _ => []

/-- Either bytes of the stream are taken and handed on, or nothing is, and the peer's buffer stays
what it is unless the stream ends. -/
theorem stream_cases (hn : n < 2 ^ 64) (hfew : r.peers.length ≤ 2 ^ 64) (a : Act) :
    (∃ p bytes, r.peer? n = some p ∧ p.reading = true ∧ r.heard n a = bytes ∧
      own n (r.handed a) = (p.hear bytes).gathered r.isOpen ∧
      (r.step a).peer? n = some ((p.hear bytes).settle r.isOpen)) ∨
    r.heard n a = [] ∧ own n (r.handed a) = [] ∧ ∀ p, r.peer? n = some p →
      ∃ q, (r.step a).peer? n = some q ∧ (q.reading = p.reading ∧ q.buffer = p.buffer ∨
        a = .finish n ∧ q.reading = false) := by
  cases a with
  | receive i bytes =>
    rcases step_receive_cases i bytes r with ⟨hr,hs,hq⟩ | ⟨p,hp,hr,hsome,hs⟩
    · refine .inr ⟨by simp [heard, hr],?_,fun p hp => ⟨p,(congrArg _ hs).trans hp,.inl ⟨rfl,rfl⟩⟩⟩
      rcases handed_cases r (.receive i bytes) with hh | ⟨_,_,p,ha,hp,hreading,_⟩
      · rw [hh]
        rfl
      · cases ha
        rw [hq p hp] at hreading
        cases hreading
    · by_cases hi : i = n
      · subst hi
        refine .inl ⟨p,bytes,hp,hr,by simp [heard, hsome],by simp [handed, hp, hr, own_self],?_⟩
        rw [hs, peer?_put_self _ _ hp]
      · have hlt := (List.getElem?_eq_some_iff.mp hp).1
        have hne : Peer.identity i ≠ Peer.identity n := fun h =>
          hi (Peer.identity_inj (Nat.lt_of_lt_of_le hlt hfew) hn h)
        refine .inr ⟨by simp [heard, hi],by simp [handed, hp, hr, own_of_ne hne],?_⟩
        intro q hq
        refine ⟨q,?_,.inl ⟨rfl,rfl⟩⟩
        rw [hs, peer?_put _ _ _ hq, if_neg hi]
  | finish i =>
    refine .inr ⟨rfl,rfl,fun p hp => ⟨_,peer?_step hp _,?_⟩⟩
    rw [Peer.after]
    split
    · rename_i hi
      exact .inr ⟨congrArg _ hi.1,rfl⟩
    · exact .inl ⟨rfl,rfl⟩
  | leave i | read i count =>
    refine .inr ⟨rfl,rfl,fun p hp => ⟨_,peer?_step hp _,.inl ?_⟩⟩
    rw [Peer.after]
    split <;> exact ⟨rfl,rfl⟩
  | send target m =>
    refine .inr ⟨rfl,rfl,fun p hp => ⟨_,peer?_step hp _,.inl ?_⟩⟩
    rw [Peer.after]
    split
    · rw [Peer.offer]
      split
      · exact ⟨rfl,rfl⟩
      · split <;> exact ⟨rfl,rfl⟩
    · exact ⟨rfl,rfl⟩
  | connect | drain | closeAll | closeInbound =>
    exact .inr ⟨rfl,rfl,fun p hp => ⟨_,peer?_step hp _,.inl ⟨rfl,rfl⟩⟩⟩

/-- What has been handed on of what was heard of the stream. The stream is read until it has
`ended`, or its bytes are no messages. -/
structure Follows (n : Nat) (ended : Prop) (bytes : List UInt8) (ms : List Message) (r : Router) :
    Prop where
  in_order : ms <+: (Framing.scan bytes).1
  complete : r.isOpen = true → ms = (Framing.scan bytes).1
  leftover : r.isOpen = true → ∀ p, r.peer? n = some p → p.reading = true →
    p.buffer = (Framing.scan bytes).2
  reading : r.isOpen = true → ∀ p, r.peer? n = some p →
    p.reading = true ∨ ended ∨ Framing.next (Framing.scan bytes).2 = .broken
  unopened : r.peer? n = none → bytes = []

theorem follows_of_none (hp : r.peer? n = none) (ended : Prop) : Follows n ended [] [] r where
  in_order := List.nil_prefix
  complete _ := rfl
  leftover _ p h := by rw [hp] at h; cases h
  reading _ p h := by rw [hp] at h; cases h
  unopened _ := rfl

section
variable {ended : Prop} {bytes : List UInt8} {ms : List Message} {p : Peer} {s : Router}

theorem Follows.hear (h : Follows n ended bytes ms r) (hp : r.peer? n = some p)
    (hr : p.reading = true) {more : List UInt8} (hopen : s.isOpen = true → r.isOpen = true)
    (hs : s.peer? n = some ((p.hear more).settle r.isOpen)) :
    Follows n ended (bytes ++ more) (ms ++ (p.hear more).gathered r.isOpen) s := by
  have hscan := Framing.scan_append bytes more
  have hgot (ho : r.isOpen = true) :
      ms ++ (p.hear more).gathered r.isOpen = (Framing.scan (bytes ++ more)).1 := by
    rw [ho, hscan, ← h.leftover ho p hp hr, ← h.complete ho]
    rfl
  have hleft (ho : r.isOpen = true) :
      (p.hear more).leftover r.isOpen = (Framing.scan (bytes ++ more)).2 := by
    rw [ho, hscan, ← h.leftover ho p hp hr]
    rfl
  constructor
  · by_cases ho : r.isOpen = true
    · rw [hgot ho]
    · rw [hscan, Peer.gathered, if_neg ho, List.append_nil]
      exact h.in_order.trans (List.prefix_append ..)
  · intro ho
    exact hgot (hopen ho)
  · intro ho q hq hqr
    obtain rfl := Option.some.inj (hs.symm.trans hq)
    rw [← hleft (hopen ho)]
    rcases Peer.settle_cases r.isOpen (p.hear more) with ⟨_,he⟩ | ⟨_,he⟩
    · rw [he]
    · rw [he] at hqr
      cases hqr
  · intro ho q hq
    obtain rfl := Option.some.inj (hs.symm.trans hq)
    rcases Peer.settle_cases r.isOpen (p.hear more) with ⟨_,he⟩ | ⟨hbad,_⟩
    · rw [he]
      exact .inl hr
    · rw [hleft (hopen ho)] at hbad
      exact .inr (.inr ((Framing.isStuck_scan _).next.resolve_left hbad))
  · intro hnone
    rw [hs] at hnone
    cases hnone

theorem Follows.stay (h : Follows n ended bytes ms r) (hopen : s.isOpen = true → r.isOpen = true)
    (hs : ∀ q, s.peer? n = some q → r.peer? n = none ∧ q = {} ∨
      ∃ p, r.peer? n = some p ∧ (q.reading = p.reading ∧ q.buffer = p.buffer ∨
        ended ∧ q.reading = false))
    (hnone : s.peer? n = none → r.peer? n = none) : Follows n ended bytes ms s := by
  constructor
  · exact h.in_order
  · intro ho
    exact h.complete (hopen ho)
  · intro ho q hq hqr
    rcases hs q hq with ⟨hp,rfl⟩ | ⟨p,hp,⟨hreading,hbuffer⟩ | ⟨_,hreading⟩⟩
    · rw [h.unopened hp]
      rfl
    · rw [hbuffer]
      exact h.leftover (hopen ho) p hp (hreading ▸ hqr)
    · rw [hreading] at hqr
      cases hqr
  · intro ho q hq
    rcases hs q hq with ⟨_,rfl⟩ | ⟨p,hp,⟨hreading,_⟩ | ⟨hended,_⟩⟩
    · exact .inl rfl
    · rw [hreading]
      exact h.reading (hopen ho) p hp
    · exact .inr (.inl hended)
  · intro hsn
    exact h.unopened (hnone hsn)

theorem Follows.step (h : Follows n ended bytes ms r) (hn : n < 2 ^ 64)
    (hfew : r.peers.length ≤ 2 ^ 64) {a : Act} (ha : a = .finish n → ended) :
    Follows n ended (bytes ++ r.heard n a) (ms ++ own n (r.handed a)) (r.step a) := by
  have hopen : (r.step a).isOpen = true → r.isOpen = true := by
    rw [isOpen_step, Bool.and_eq_true]
    exact And.left
  -- A peer that is opened in this step has sent nothing, which is what was heard of it before.
  rcases stream_cases hn hfew a with ⟨p,more,hp,hr,hh,ho,hq⟩ | ⟨hh,ho,hstay⟩
  · rw [hh, ho]
    exact h.hear hp hr hopen hq
  · rw [hh, ho, List.append_nil, List.append_nil]
    apply h.stay hopen
    · intro q hq
      cases hp : r.peer? n with
      | none =>
        rw [peer?_step_of_none hp] at hq
        split at hq
        · exact .inl ⟨rfl,(Option.some.inj hq).symm⟩
        · cases hq
      | some p =>
        obtain ⟨q',hq',hsame⟩ := hstay p hp
        obtain rfl := Option.some.inj (hq'.symm.trans hq)
        exact .inr ⟨p,rfl,hsame.imp_right (And.imp_left ha)⟩
    · intro hnone
      cases hp : r.peer? n with
      | none => rfl
      | some p =>
        obtain ⟨q,hq,_⟩ := hstay p hp
        rw [hq] at hnone
        cases hnone

/-- What was heard of a stream has been handed on, whatever happened in between. -/
theorem Follows.run (h : Follows n ended bytes ms r) (hn : n < 2 ^ 64) {acts : List Act}
    (hfew : r.peers.length + acts.count .connect ≤ 2 ^ 64) (ha : .finish n ∈ acts → ended) :
    Follows n ended (bytes ++ record (heard n) r acts) (ms ++ own n (record handed r acts))
      (r.run acts) := by
  induction acts generalizing r bytes ms with
  | nil => simpa [record, own] using h
  | cons a acts ih =>
    rw [← List.singleton_append, List.count_append, ← Nat.add_assoc, ← length_peers_step] at hfew
    have hl := length_peers_step r a
    have hstep := h.step hn (by omega) (a := a) fun he => ha (he ▸ List.mem_cons_self ..)
    have hrun := ih hstep hfew fun hf => ha (List.mem_cons_of_mem a hf)
    simpa only [record, own_append, List.append_assoc, run_cons] using hrun

/-- As long as the broker is there and the stream has not ended, the router reads it, or its bytes
are no messages. -/
theorem Follows.receives (h : Follows n ended bytes ms r) (ho : r.isOpen = true) (he : ¬ended)
    (hp : r.peer? n = some p) :
    (∀ more, (r.receive n more).isSome) ∨ Framing.next (Framing.scan bytes).2 = .broken := by
  rcases h.reading ho p hp with hr | hr | hr
  · refine .inl fun more => ?_
    rw [receive_eq hp, if_pos hr]
    rfl
  · exact absurd hr he
  · exact .inr hr

theorem Follows.isPresent (h : Follows n ended bytes ms r) (ho : r.isOpen = true) (he : ¬ended)
    (hs : r.IsServed n) :
    r.isPresent n = true ∨ Framing.next (Framing.scan bytes).2 = .broken := by
  obtain ⟨p,hp,hl,hk⟩ := hs
  rcases h.reading ho p hp with hr | hr | hr
  · simp [Router.isPresent, hp, hl, hk hr]
  · exact absurd hr he
  · exact .inr hr

end

end Majordomo.Router
