import Majordomo.Proofs.Router.Acts

/-! # What the peers are given

A message to the identity of a peer waits for the peer to read it, if there is such a peer and there
is room. Whatever waits is read in the order in which it was sent, or lost with the peer.
-/
namespace Majordomo.Router
variable {r : Router} {n : Nat} {p : Peer}

/-! ## Queues along a run -/

section
variable {α : Type}

def record (f : Router → Act → List α) (r : Router) : List Act → List α
  | [] => []
  | a :: acts => f r a ++ record f (r.step a) acts

theorem record_eq_nil {f : Router → Act → List α} {P : Router → Prop}
    (hf : ∀ r a, P r → f r a = []) (hP : ∀ r a, P r → P (r.step a)) (h : P r) (acts : List Act) :
    record f r acts = [] := by
  induction acts generalizing r with
  | nil => rfl
  | cons a acts ih => rw [record, hf r a h, ih (hP r a h), List.append_nil]

theorem record_sublist {f : Router → Act → List α} {g : Act → List α}
    (h : ∀ r a, (f r a).Sublist (g a)) (r : Router) (acts : List Act) :
    (record f r acts).Sublist (acts.flatMap g) := by
  induction acts generalizing r with
  | nil => exact .refl _
  | cons a acts ih => exact (h r a).append (ih _)

/-- What is put in at one end of what is held is taken at the other, until the queue is shut: then
all that is held is lost, and nothing is taken any more. -/
structure Queue (input output : Router → Act → List α) (held : Router → List α)
    (shut : Router → Prop) : Prop where
  moves : ∀ r a, output r a ++ held (r.step a) = held r ++ input r a ∨
    output r a = [] ∧ shut (r.step a)
  shut_step : ∀ r a, shut r → shut (r.step a)
  output_of_shut : ∀ r a, shut r → output r a = []
  held_of_shut : ∀ r, shut r → held r = []

variable {input output : Router → Act → List α} {held : Router → List α} {shut : Router → Prop}

/-- What is taken is what was put in first, in the same order, and what is held comes next. -/
theorem Queue.record_isPrefix (q : Queue input output held shut) (r : Router) (acts : List Act) :
    record output r acts ++ held (r.run acts) <+: held r ++ record input r acts := by
  induction acts generalizing r with
  | nil => simp [record]
  | cons a acts ih =>
    rcases q.moves r a with hm | ⟨ho,hs⟩
    · simp only [record, run_cons]
      rw [List.append_assoc, ← List.append_assoc (held r), ← hm, List.append_assoc]
      exact (List.prefix_append_right_inj _).mpr (ih _)
    · -- What was put in does not matter: nothing is taken from here on, and nothing is held.
      have hrest : record output (r.step a) acts = [] :=
        record_eq_nil q.output_of_shut q.shut_step hs acts
      have hend : shut ((r.step a).run acts) := run_induction hs fun a _ r => q.shut_step r a
      simp [record, ho, hrest, q.held_of_shut _ hend]

/-- If nothing shuts the queue, all that was put in is taken or still held. -/
theorem record_append_held (acts : List Act)
    (h : ∀ a ∈ acts, ∀ r, output r a ++ held (r.step a) = held r ++ input r a) :
    record output r acts ++ held (r.run acts) = held r ++ record input r acts := by
  induction acts generalizing r with
  | nil => simp [record]
  | cons a acts ih =>
    have ha := h a (List.mem_cons_self ..) r
    have hacts := ih (r := r.step a) fun b hb => h b (List.mem_cons_of_mem a hb)
    calc record output r (a :: acts) ++ held (r.run (a :: acts))
        = output r a ++ (held (r.step a) ++ record input (r.step a) acts) := by
          rw [record, run_cons, List.append_assoc, hacts]
      _ = held r ++ record input r (a :: acts) := by
          rw [← List.append_assoc, ha, List.append_assoc, record]

end

/-! ## Messages to a peer -/

theorem waiting_of_some (hp : r.peer? n = some p) : r.waiting n = p.outbox := by
  simp [waiting, hp]

theorem waiting_of_none (hp : r.peer? n = none) : r.waiting n = [] := by
  simp [waiting, hp]

theorem waiting_step (hp : r.peer? n = some p) (a : Act) :
    (r.step a).waiting n = (p.after n r.isOpen r.capacity a).outbox :=
  waiting_of_some (peer?_step hp a)

theorem waiting_step_of_none (hp : r.peer? n = none) (a : Act) : (r.step a).waiting n = [] := by
  rw [waiting, peer?_step_of_none hp]
  split <;> rfl

def isPresent (n : Nat) (r : Router) : Bool :=
  (r.peer? n).any fun p => p.registered && p.listening

def given (n : Nat) (r : Router) : Act → List Message
  | .read i count => if i = n then (r.readSome n count).1 else []
  | _ => []

def accepted (n : Nat) (r : Router) : Act → List Message
  | .send target m => ((r.step (.send target m)).waiting n).drop (r.waiting n).length
  | _ => []

def Act.sentTo (n : Nat) : Act → List Message
  | .send target m => if target = Peer.identity n then [m] else []
  | _ => []

theorem waiting_step_send (n : Nat) (target : Frame) (m : Message) (r : Router) :
    (r.step (.send target m)).waiting n = r.waiting n ++
      if target = Peer.identity n ∧ r.isPresent n ∧ (r.waiting n).length < r.capacity then [m]
      else [] := by
  cases hp : r.peer? n with
  | none => simp [waiting_step_of_none hp, waiting_of_none hp, isPresent, hp]
  | some p =>
    simp only [waiting_step hp, waiting_of_some hp, isPresent, hp, Option.any_some, Peer.after,
      Bool.and_eq_true, eq_comm (a := target)]
    by_cases hi : Peer.identity n = target
    · cases hr : p.registered with
      | false => simp
      | true =>
        rw [if_pos ⟨rfl,hi⟩, Peer.offer]
        cases hl : p.listening with
        | false => simp
        | true => by_cases hc : p.outbox.length < r.capacity <;> simp [hi, hc]
    · simp [hi]

/-- A message is dropped only if it goes to somebody else, or the peer is not there, or as many wait
for it as may wait. -/
theorem accepted_send (n : Nat) (target : Frame) (m : Message) (r : Router) :
    r.accepted n (.send target m) =
      if target = Peer.identity n ∧ r.isPresent n ∧ (r.waiting n).length < r.capacity then [m]
      else [] := by
  rw [accepted, waiting_step_send, List.drop_left]

theorem accepted_sublist (n : Nat) (r : Router) (a : Act) :
    (r.accepted n a).Sublist (a.sentTo n) := by
  cases a with
  | send target m =>
    rw [accepted_send, Act.sentTo]
    by_cases ht : target = Peer.identity n
    · rw [if_pos ht]
      split
      · exact .refl _
      · exact List.nil_sublist _
    · rw [if_neg fun h => ht h.1]
      exact List.nil_sublist _
  | _ => exact .refl _

theorem given_append_waiting_step (r : Router) {a : Act} (ha : a ≠ .leave n) :
    r.given n a ++ (r.step a).waiting n = r.waiting n ++ r.accepted n a := by
  cases hp : r.peer? n with
  | none =>
    rw [waiting_step_of_none hp, waiting_of_none hp]
    cases a with
    | read i count => simp [given, accepted, readSome, waiting_of_none hp]
    | send target m => simp [given, accepted, waiting_step_of_none hp]
    | _ => rfl
  | some p =>
    cases a with
    | send target m =>
      rw [accepted_send, waiting_step_send]
      rfl
    | read i count =>
      by_cases hi : i = n
      · simp [given, accepted, readSome, waiting_step hp, waiting_of_some hp, Peer.after, hi]
      · simp [given, accepted, waiting_step hp, waiting_of_some hp, Peer.after, hi]
    | leave i =>
      have hi : i ≠ n := fun h => ha (congrArg Act.leave h)
      simp [given, accepted, waiting_step hp, waiting_of_some hp, Peer.after, hi]
    | receive i bytes =>
      simp only [given, accepted, waiting_step hp, waiting_of_some hp, Peer.after, List.nil_append,
        List.append_nil]
      split
      · exact Peer.outbox_settle ..
      · rfl
    | finish i =>
      simp only [given, accepted, waiting_step hp, waiting_of_some hp, Peer.after, List.nil_append,
        List.append_nil]
      split <;> rfl
    | connect | drain | closeAll | closeInbound =>
      simp [given, accepted, waiting_step hp, waiting_of_some hp, Peer.after]

theorem waiting_step_leave (n : Nat) (r : Router) : (r.step (.leave n)).waiting n = [] := by
  cases hp : r.peer? n with
  | none => exact waiting_step_of_none hp _
  | some p => simp [waiting_step hp, Peer.after, Peer.leave]

def HasLeft (n : Nat) (r : Router) : Prop :=
  ∃ p, r.peer? n = some p ∧ p.listening = false ∧ p.outbox = []

theorem HasLeft.waiting (h : r.HasLeft n) : r.waiting n = [] := by
  obtain ⟨p,hp,_,ho⟩ := h
  rw [waiting_of_some hp, ho]

theorem HasLeft.step (h : r.HasLeft n) (a : Act) : (r.step a).HasLeft n := by
  obtain ⟨p,hp,hl,ho⟩ := h
  refine ⟨_,peer?_step hp a,?_⟩
  cases a with
  | receive i bytes =>
    rw [Peer.after]
    split
    · exact ⟨(Peer.listening_settle ..).trans hl,(Peer.outbox_settle ..).trans ho⟩
    · exact ⟨hl,ho⟩
  | finish i | leave i | send target m | read i count =>
    rw [Peer.after]
    split <;> simp [Peer.finish, Peer.leave, Peer.offer, hl, ho]
  | connect | drain | closeAll | closeInbound => exact ⟨hl,ho⟩

/-- What waits for a peer waits in a queue, which is shut when the peer leaves. -/
theorem queue_waiting (n : Nat) :
    Queue (accepted n) (given n) (fun r => r.waiting n) (HasLeft n) where
  moves r a := by
    by_cases ha : a = .leave n
    · cases hp : r.peer? n with
      | none => simp [ha, given, accepted, waiting_step_of_none hp, waiting_of_none hp]
      | some p => exact .inr ⟨ha ▸ rfl,ha ▸ ⟨_,peer?_step hp _,by simp [Peer.after, Peer.leave]⟩⟩
    · exact .inl (given_append_waiting_step r ha)
  shut_step r a h := h.step a
  output_of_shut r a h := by
    cases a with
    | read i count => simp [given, readSome, h.waiting]
    | _ => rfl
  held_of_shut r h := h.waiting

/-- There never wait more messages for a peer than may wait. -/
theorem length_waiting_step (h : (r.waiting n).length ≤ r.capacity) (a : Act) :
    ((r.step a).waiting n).length ≤ r.capacity := by
  by_cases ha : a = .leave n
  · rw [ha, waiting_step_leave]
    exact Nat.zero_le _
  · have hm := congrArg List.length (given_append_waiting_step r ha)
    simp only [List.length_append] at hm
    cases a with
    | send target m =>
      rw [accepted_send] at hm
      split at hm
      · rename_i hc
        simp only [List.length_singleton] at hm
        omega
      · simp only [List.length_nil] at hm
        omega
    | _ =>
      simp only [accepted, List.length_nil] at hm
      omega

theorem length_waiting_run (h : (r.waiting n).length ≤ r.capacity) (acts : List Act) :
    ((r.run acts).waiting n).length ≤ (r.run acts).capacity := by
  refine run_induction (P := fun t => (t.waiting n).length ≤ t.capacity) h ?_
  intro a _ t ht
  rw [capacity_step]
  exact length_waiting_step ht a

/-- The peer may still read, and is known to the router as long as the router reads what it
sends. -/
def IsServed (n : Nat) (r : Router) : Prop :=
  ∃ p, r.peer? n = some p ∧ p.listening = true ∧ (p.reading = true → p.registered = true)

theorem IsServed.step (h : r.IsServed n) {a : Act} (hl : a ≠ .leave n) (hc : a ≠ .closeAll) :
    (r.step a).IsServed n := by
  obtain ⟨p,hp,hp₁,hp₂⟩ := h
  refine ⟨_,peer?_step hp a,?_⟩
  cases a with
  | receive i bytes =>
    rw [Peer.after]
    split
    · rcases Peer.settle_cases r.isOpen (p.hear bytes) with ⟨_,hs⟩ | ⟨_,hs⟩
      · rw [hs]
        exact ⟨hp₁,hp₂⟩
      · rw [hs]
        exact ⟨hp₁,fun h => absurd h Bool.false_ne_true⟩
    · exact ⟨hp₁,hp₂⟩
  | finish i =>
    rw [Peer.after]
    split
    · exact ⟨hp₁,fun h => absurd h Bool.false_ne_true⟩
    · exact ⟨hp₁,hp₂⟩
  | leave i =>
    have hi : i ≠ n := fun h => hl (congrArg Act.leave h)
    rw [Peer.after, if_neg hi]
    exact ⟨hp₁,hp₂⟩
  | send target m =>
    rw [Peer.after]
    split
    · rw [Peer.offer, if_neg (by simp [hp₁])]
      split <;> exact ⟨hp₁,hp₂⟩
    · exact ⟨hp₁,hp₂⟩
  | read i count =>
    rw [Peer.after]
    split <;> exact ⟨hp₁,hp₂⟩
  | closeAll => exact absurd rfl hc
  | connect | drain | closeInbound => exact ⟨hp₁,hp₂⟩

end Majordomo.Router
