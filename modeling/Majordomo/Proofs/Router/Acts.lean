import Majordomo.Router.State
import Majordomo.Proofs.Router.Framing

/-! # What happens to a router

Streams are opened, bytes come in, messages are sent and read, streams end, in any order. Whatever
happens, a peer becomes what it becomes by itself: no act looks at another peer.
-/
namespace Majordomo

namespace Router

/-! ## Acts -/

inductive Act
  /-- A stream is opened. -/
  | connect
  /-- Bytes come in on the stream with the number. -/
  | receive (n : Nat) (bytes : List UInt8)
  /-- A peer ends its stream. -/
  | finish (n : Nat)
  /-- A peer drops the stream through which it is sent to. -/
  | leave (n : Nat)
  /-- The broker sends a message to whoever has the identity. -/
  | send (target : Frame) (m : Message)
  /-- A peer reads the oldest messages that wait for it. -/
  | read (n count : Nat)
  /-- The broker takes the oldest messages that wait for it. -/
  | drain (count : Nat)
  /-- All peers are forgotten. -/
  | closeAll
  /-- The broker takes no more messages. -/
  | closeInbound
deriving DecidableEq, Inhabited

def waiting (n : Nat) (r : Router) : List Message := ((r.peer? n).map (·.outbox)).getD []

def readSome (n count : Nat) (r : Router) : List Message × Router :=
  ((r.waiting n).take count,r.update n fun p => { p with outbox := p.outbox.drop count })

def drainSome (count : Nat) (r : Router) : List (Frame × Message) × Router :=
  (r.inbound.take count,{ r with inbound := r.inbound.drop count })

def step (r : Router) : Act → Router
  | .connect => r.connect.2
  | .receive n bytes => (r.receive n bytes).getD r
  | .finish n => r.finish n
  | .leave n => r.leave n
  | .send target m => r.send target m
  | .read n count => (r.readSome n count).2
  | .drain count => (r.drainSome count).2
  | .closeAll => r.closeAll
  | .closeInbound => r.closeInbound

def run (r : Router) (acts : List Act) : Router := acts.foldl step r

@[simp] theorem run_nil (r : Router) : r.run [] = r := rfl

@[simp] theorem run_cons (r : Router) (a : Act) (acts : List Act) :
    r.run (a :: acts) = (r.step a).run acts := rfl

theorem run_append (r : Router) (acts more : List Act) :
    r.run (acts ++ more) = (r.run acts).run more := List.foldl_append

/-- What every step of a run preserves holds at its end. -/
theorem run_induction {P : Router → Prop} {r : Router} {acts : List Act} (h : P r)
    (hstep : ∀ a ∈ acts, ∀ r, P r → P (r.step a)) : P (r.run acts) := by
  induction acts generalizing r with
  | nil => exact h
  | cons a acts ih =>
    have ha := hstep a (List.mem_cons_self ..) r h
    exact ih ha fun b hb => hstep b (List.mem_cons_of_mem a hb)

/-! ## One peer of many -/

def put (n : Nat) (q : Peer) (ms : List Message) (r : Router) : Router :=
  { r with
    peers := r.peers.set n q
    inbound := r.inbound ++ ms.map (Peer.identity n,·) }

section
variable {r : Router} {n : Nat} {p : Peer}

theorem put_self (hp : r.peer? n = some p) : r.put n p [] = r := by
  obtain ⟨hn,rfl⟩ := List.getElem?_eq_some_iff.mp hp
  simp [put]

theorem put_put (q₁ q₂ : Peer) (ms₁ ms₂ : List Message) (r : Router) :
    (r.put n q₁ ms₁).put n q₂ ms₂ = r.put n q₂ (ms₁ ++ ms₂) := by
  simp [put]

theorem peer?_put (i : Nat) (q : Peer) (ms : List Message) (hp : r.peer? n = some p) :
    (r.put i q ms).peer? n = some (if i = n then q else p) := by
  obtain ⟨hn,rfl⟩ := List.getElem?_eq_some_iff.mp hp
  rw [peer?, put, List.getElem?_set, List.getElem?_eq_getElem hn]
  split
  · rename_i hi
    rw [if_pos (hi ▸ hn)]
  · rfl

theorem peer?_put_self (q : Peer) (ms : List Message) (hp : r.peer? n = some p) :
    (r.put n q ms).peer? n = some q := by
  rw [peer?_put n q ms hp, if_pos rfl]

theorem peer?_update (i : Nat) (f : Peer → Peer) (hp : r.peer? n = some p) :
    (r.update i f).peer? n = some (if i = n then f p else p) := by
  unfold peer? at hp ⊢
  rw [update, List.getElem?_modify, hp]
  split <;> rfl

theorem update_eq_put (f : Peer → Peer) (hp : r.peer? n = some p) :
    r.update n f = r.put n (f p) [] := by
  unfold peer? at hp
  rw [update, List.modify_eq_set_getElem?, hp]
  simp [put]

end
end Router

/-! ## Bytes that come in -/

namespace Peer
open Router
variable {p : Peer} {m : Message} {rest : List UInt8}

def hear (bytes : List UInt8) (p : Peer) : Peer := { p with buffer := p.buffer ++ bytes }

/-- The messages that the router takes from the peer's buffer. It takes none for a broker that
takes no more. -/
def gathered (isOpen : Bool) (p : Peer) : List Message :=
  if isOpen then (Framing.scan p.buffer).1 else []

def leftover (isOpen : Bool) (p : Peer) : List UInt8 :=
  if isOpen then (Framing.scan p.buffer).2 else p.buffer

/-- The peer when those messages are taken. The router reads no more if what is left cannot become
a message, or is one that nobody takes. -/
def settle (isOpen : Bool) (p : Peer) : Peer :=
  if Framing.next (p.leftover isOpen) = .incomplete then { p with buffer := p.leftover isOpen }
  else p.finish

theorem settle_of_isStuck (h : Framing.IsStuck p.buffer) (isOpen : Bool) :
    p.settle isOpen = if Framing.next p.buffer = .incomplete then p else p.finish := by
  cases isOpen <;> simp [settle, leftover, Framing.scan_of_isStuck h]

theorem gathered_of_isStuck (h : Framing.IsStuck p.buffer) (isOpen : Bool) :
    p.gathered isOpen = [] := by
  cases isOpen <;> simp [gathered, Framing.scan_of_isStuck h]

theorem settle_of_message (h : Framing.next p.buffer = .message m rest) :
    p.settle true = { p with buffer := rest }.settle true := by
  simp [settle, leftover, Framing.scan_of_message h, finish]

theorem gathered_of_message (h : Framing.next p.buffer = .message m rest) :
    p.gathered true = m :: { p with buffer := rest }.gathered true := by
  simp [gathered, Framing.scan_of_message h]

theorem settle_cases (isOpen : Bool) (p : Peer) :
    Framing.next (p.leftover isOpen) = .incomplete ∧
      p.settle isOpen = { p with buffer := p.leftover isOpen } ∨
    Framing.next (p.leftover isOpen) ≠ .incomplete ∧ p.settle isOpen = p.finish := by
  unfold settle
  split
  · rename_i h
    exact .inl ⟨h,rfl⟩
  · rename_i h
    exact .inr ⟨h,rfl⟩

@[simp] theorem outbox_settle (isOpen : Bool) (p : Peer) :
    (p.settle isOpen).outbox = p.outbox := by
  rcases settle_cases isOpen p with ⟨_,h⟩ | ⟨_,h⟩ <;> simp [h, finish]

@[simp] theorem listening_settle (isOpen : Bool) (p : Peer) :
    (p.settle isOpen).listening = p.listening := by
  rcases settle_cases isOpen p with ⟨_,h⟩ | ⟨_,h⟩ <;> simp [h, finish]

end Peer

namespace Router
variable {r : Router} {n : Nat} {p : Peer}

theorem collect_of_not_reading (hp : r.peer? n = some p) (hr : p.reading = false) (k : Nat) :
    r.collect n k = r := by
  cases k with
  | zero => rfl
  | succ k => simp [collect, hp, hr]

theorem collect_of_isStuck (hp : r.peer? n = some p) (hr : p.reading = true)
    (hs : Framing.IsStuck p.buffer) {k : Nat} (hk : p.buffer.length ≤ k) :
    r.collect n k = r.put n (p.settle r.isOpen) (p.gathered r.isOpen) := by
  rw [Peer.settle_of_isStuck hs, Peer.gathered_of_isStuck hs]
  cases k with
  | zero =>
    have hb : p.buffer = [] := List.eq_nil_of_length_eq_zero (Nat.le_zero.mp hk)
    rw [if_pos (by rw [hb]; rfl), put_self hp]
    rfl
  | succ k =>
    simp only [collect, hp, hr, if_true]
    cases hn : Framing.next p.buffer with
    | incomplete => rw [if_pos rfl, put_self hp]
    | broken => exact update_eq_put _ hp
    | message m rest => exact absurd hn (hs m rest)

/-- The router takes all that is complete in a peer's buffer. -/
theorem collect_eq_put (hp : r.peer? n = some p) (hr : p.reading = true) {k : Nat}
    (hk : p.buffer.length ≤ k) :
    r.collect n k = r.put n (p.settle r.isOpen) (p.gathered r.isOpen) := by
  induction k generalizing r p with
  | zero =>
    have hb : p.buffer = [] := List.eq_nil_of_length_eq_zero (Nat.le_zero.mp hk)
    exact collect_of_isStuck hp hr (hb ▸ Framing.isStuck_nil) hk
  | succ k ih =>
    rcases Framing.isStuck_or p.buffer with hs | ⟨m,rest,hm⟩
    · exact collect_of_isStuck hp hr hs hk
    · -- Every message that is taken shortens the buffer, so `k` is never used up too early.
      have hlt := (Framing.of_next_message hm).1
      simp only [collect, hp, hr, if_true, hm]
      cases ho : r.isOpen with
      | true =>
        let q : Peer := { p with buffer := rest }
        have hh : r.hand n m rest = r.put n q [m] := by
          simp only [hand, ho, if_true, update_eq_put _ hp, put, List.map_nil, List.append_nil]
          rfl
        have hq : (r.put n q [m]).peer? n = some q := peer?_put_self q [m] hp
        have hc := ih hq hr (by simp only [q]; omega)
        have hopen : (r.put n q [m]).isOpen = true := ho
        rw [hh, hc, put_put, hopen, Peer.settle_of_message hm, Peer.gathered_of_message hm]
        rfl
      | false =>
        have hh : r.hand n m rest = r.put n p.finish [] := by
          simp only [hand, ho, update_eq_put _ hp]
          rfl
        have hq : (r.put n p.finish []).peer? n = some p.finish := peer?_put_self _ [] hp
        have hf : p.settle false = p.finish := by
          simp [Peer.settle, Peer.leftover, hm]
        rw [hh, collect_of_not_reading hq rfl, hf]
        rfl

/-- Bytes are taken as long as the router reads what the peer sends. -/
theorem receive_eq (hp : r.peer? n = some p) (bytes : List UInt8) :
    r.receive n bytes =
      if p.reading then
        some (r.put n ((p.hear bytes).settle r.isOpen) ((p.hear bytes).gathered r.isOpen))
      else none := by
  rw [receive, hp]
  dsimp only
  split
  · rename_i hr
    have hq : (r.put n (p.hear bytes) []).peer? n = some (p.hear bytes) := peer?_put_self _ [] hp
    have hlen : (p.hear bytes).buffer.length = p.buffer.length + bytes.length :=
      List.length_append
    have hc := collect_eq_put hq hr (Nat.le_of_eq hlen)
    rw [update_eq_put _ hp]
    exact congrArg some (hc.trans (put_put ..))
  · rfl

theorem receive_of_none (hp : r.peer? n = none) (bytes : List UInt8) : r.receive n bytes = none := by
  rw [receive, hp]

theorem step_receive_cases (n : Nat) (bytes : List UInt8) (r : Router) :
    (r.receive n bytes = none ∧ r.step (.receive n bytes) = r ∧
      ∀ p, r.peer? n = some p → p.reading = false) ∨
    ∃ p, r.peer? n = some p ∧ p.reading = true ∧ (r.receive n bytes).isSome ∧
      r.step (.receive n bytes) =
        r.put n ((p.hear bytes).settle r.isOpen) ((p.hear bytes).gathered r.isOpen) := by
  cases hp : r.peer? n with
  | none =>
    have hr := receive_of_none hp bytes
    exact .inl ⟨hr,by rw [step, hr]; rfl,fun p h => nomatch h⟩
  | some p =>
    have hr := receive_eq hp bytes
    cases hreading : p.reading with
    | true =>
      rw [hreading, if_pos rfl] at hr
      exact .inr ⟨p,rfl,hreading,by rw [hr]; rfl,by rw [step, hr]; rfl⟩
    | false =>
      rw [hreading, if_neg Bool.false_ne_true] at hr
      exact .inl ⟨hr,by rw [step, hr]; rfl,fun q h => Option.some.inj h ▸ hreading⟩

end Router

/-! ## What a step does -/

namespace Peer

def after (n : Nat) (isOpen : Bool) (capacity : Nat) (p : Peer) : Router.Act → Peer
  | .receive i bytes => if i = n ∧ p.reading then (p.hear bytes).settle isOpen else p
  | .finish i => if i = n ∧ p.reading then p.finish else p
  | .leave i => if i = n then p.leave else p
  | .send target m => if p.registered ∧ identity n = target then p.offer capacity m else p
  | .read i count => if i = n then { p with outbox := p.outbox.drop count } else p
  | .closeAll => { p with registered := false }
  | .connect | .drain _ | .closeInbound => p

end Peer

namespace Router
variable {r : Router} {n : Nat} {p : Peer}

theorem capacity_step (r : Router) (a : Act) : (r.step a).capacity = r.capacity := by
  cases a with
  | receive n bytes =>
    rcases step_receive_cases n bytes r with ⟨_,hs,_⟩ | ⟨p,_,_,_,hs⟩
    · rw [hs]
    · rw [hs, put]
  | _ => rfl

theorem isOpen_step (r : Router) (a : Act) :
    (r.step a).isOpen = (r.isOpen && a ≠ .closeInbound) := by
  cases a with
  | receive n bytes =>
    rcases step_receive_cases n bytes r with ⟨_,hs,_⟩ | ⟨p,_,_,_,hs⟩ <;> simp [hs, put]
  | _ => simp [step, connect, finish, leave, send, readSome, drainSome, closeAll, closeInbound, update]

theorem length_peers_step (r : Router) (a : Act) :
    (r.step a).peers.length = r.peers.length + [a].count .connect := by
  cases a with
  | receive n bytes =>
    rcases step_receive_cases n bytes r with ⟨_,hs,_⟩ | ⟨p,_,_,_,hs⟩ <;> simp [hs, put]
  | _ => simp [step, connect, finish, leave, send, readSome, drainSome, closeAll, closeInbound, update]

/-- What a step makes of a peer depends on nothing of any other peer. -/
theorem peer?_step (hp : r.peer? n = some p) (a : Act) :
    (r.step a).peer? n = some (p.after n r.isOpen r.capacity a) := by
  cases a with
  | connect =>
    have hn := (List.getElem?_eq_some_iff.mp hp).1
    exact (List.getElem?_append_left hn).trans hp
  | receive i bytes =>
    rcases step_receive_cases i bytes r with ⟨_,hs,hq⟩ | ⟨q,hq,hr,_,hs⟩
    · have hn : ¬(i = n ∧ p.reading = true) := by
        rintro ⟨rfl,hr⟩
        rw [hq p hp] at hr
        cases hr
      rw [hs, hp, Peer.after, if_neg hn]
    · rw [hs, peer?_put _ _ _ hp, Peer.after]
      by_cases hi : i = n
      · subst hi
        obtain rfl : p = q := Option.some.inj (hp.symm.trans hq)
        rw [if_pos rfl, if_pos ⟨rfl,hr⟩]
      · rw [if_neg hi, if_neg fun h => hi h.1]
  | finish i =>
    rw [step, finish, peer?_update i _ hp, Peer.after]
    split <;> simp [*]
  | leave i => exact peer?_update i _ hp
  | send target m =>
    unfold peer? at hp ⊢
    simp [step, send, Peer.after, hp]
  | read i count => exact peer?_update i _ hp
  | closeAll =>
    unfold peer? at hp ⊢
    simp [step, closeAll, Peer.after, hp]
  | drain | closeInbound => exact hp

theorem peer?_step_of_none (hp : r.peer? n = none) (a : Act) :
    (r.step a).peer? n = if a = .connect ∧ n = r.peers.length then some {} else none := by
  have hn : r.peers.length ≤ n := List.getElem?_eq_none_iff.mp hp
  have hl := length_peers_step r a
  by_cases ha : a = .connect
  · subst ha
    by_cases he : n = r.peers.length
    · subst he
      simp [step, connect, peer?]
    · simp only [List.count_singleton_self] at hl
      rw [if_neg fun h => he h.2]
      exact List.getElem?_eq_none (by omega)
  · rw [if_neg fun h => ha h.1]
    rw [List.count_singleton, if_neg (by simpa using ha)] at hl
    exact List.getElem?_eq_none (by omega)

def handed (r : Router) : Act → List (Frame × Message)
  | .receive n bytes =>
    match r.peer? n with
    | some p =>
      if p.reading then ((p.hear bytes).gathered r.isOpen).map (Peer.identity n,·) else []
    | none => []
  | _ => []

def drained (r : Router) : Act → List (Frame × Message)
  | .drain count => (r.drainSome count).1
  | _ => []

/-- Nothing that is handed to the broker is lost or changes its place, unless the broker takes no
more. -/
theorem drained_append_inbound_step (r : Router) {a : Act} (ha : a ≠ .closeInbound) :
    r.drained a ++ (r.step a).inbound = r.inbound ++ r.handed a := by
  cases a with
  | receive n bytes =>
    rcases step_receive_cases n bytes r with ⟨_,hs,hq⟩ | ⟨q,hq,hr,_,hs⟩
    · rw [hs]
      cases hp : r.peer? n with
      | none => simp [drained, handed, hp]
      | some p => simp [drained, handed, hp, hq p hp]
    · simp [hs, drained, handed, hq, hr, put]
  | drain count => simp [drained, handed, step, drainSome]
  | closeInbound => exact absurd rfl ha
  | _ => simp [drained, handed, step, connect, finish, leave, send, readSome, closeAll, update]

end Router
end Majordomo
