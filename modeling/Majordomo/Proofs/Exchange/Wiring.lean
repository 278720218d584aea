import Majordomo.Proofs.Exchange.World
import Majordomo.Proofs.Mediator.Staffing
import Majordomo.Proofs.Router.Identity
import Majordomo.Proofs.Worker.Flow

/-! # How the parties are joined

Connections have identities of their own and lead to connections of workers one to one;
workers say what workers say, clients what clients say; and whoever is registered with the
broker is a worker on one of its connections.
-/
namespace Majordomo.Exchange
open Broker (Mediator Outbound)

def Connection.link? (c : Connection) : Option (Nat × Nat) :=
  match c.party with
  | .client _ => none
  | .worker i n _ => some (i,n)

/-- An act of a worker keeps what is on its way, or it is a move that calls the handler. -/
theorem Act.apply_cases (a : Act) (s : Worker.State) :
    s.Keeps (a.apply s) ∨ ∃ id client body, Worker.State.Calls id client body s (a.apply s) := by
  cases a with
  | move =>
    simp only [apply]
    cases h : s.move with
    | none => exact .inl (Worker.State.keeps_of_stage rfl rfl rfl rfl rfl)
    | some s' => exact Worker.State.move_cases h
  | tick | askStop | shutdown | mode =>
    exact .inl (Worker.State.keeps_of_stage rfl rfl rfl rfl rfl)
  | notice n =>
    simp only [apply, Worker.State.notice]
    split
    · exact .inl (Worker.State.keeps_of_stage rfl rfl rfl rfl rfl)
    · split <;> exact .inl (Worker.State.keeps_of_stage rfl rfl rfl rfl rfl)
  | failure link reason =>
    exact .inl ((Worker.State.offer_passes link (.failure reason) s).keeps_of_stage rfl)
  | hangUp link => exact .inl ((Worker.State.hangUp_passes link s).keeps_of_stage rfl)
  | stopReading link => exact .inl ((Worker.State.stopReading_passes link s).keeps_of_stage rfl)

theorem Act.continues (a : Act) (s : Worker.State) : s.Continues (a.apply s) := by
  rcases a.apply_cases s with h | ⟨id,client,body,h⟩
  · exact h.continues
  · exact h.continues

namespace World
variable {w w' w'' : World}

def serviceOf? (c : Connection) (w : World) : Option String :=
  c.link?.bind fun (i,_) => w.workers[i]?.map (·.settings.announced)

def known (w : World) (peer : Frame) : Option String :=
  (w.connection? peer).bind fun c => w.serviceOf? c

def Answered (w : World) (service : String) (client : Frame) (body reply : Message) : Prop :=
  ∃ s ∈ w.workers, s.settings.announced = service ∧ ∃ n, s.callLog[n]? = some (client,body) ∧
    (s.settings.handler n client body).result = .ok reply

structure Grows (w w' : World) : Prop where
  workers : ∀ (i : Nat) (s : Worker.State), w.workers[i]? = some s →
    ∃ s', w'.workers[i]? = some s' ∧ s.Continues s'
  connections : ∀ (k : Nat) (c : Connection), w.connections[k]? = some c →
    ∃ c', w'.connections[k]? = some c' ∧ c'.identity = c.identity ∧ c'.link? = c.link?

/-- The parties are joined as they should be. -/
structure Joined (w : World) : Prop where
  /-- There are identities for all connections. -/
  fits : w.connections.length ≤ 2 ^ 64
  identities : ∀ (k : Nat) (c : Connection), w.connections[k]? = some c →
    c.identity = Peer.identity k
  links : (w.connections.filterMap (·.link?)).Nodup
  opened : ∀ c ∈ w.connections, ∀ i n, c.link? = some (i,n) →
    ∃ s, w.workers[i]? = some s ∧ n < s.network.links.length
  spoken : ∀ (i : Nat) (s : Worker.State), w.workers[i]? = some s → s.Spoken
  docked : ∀ (i : Nat) (s : Worker.State), w.workers[i]? = some s → s.Docked
  counted : ∀ (i : Nat) (s : Worker.State), w.workers[i]? = some s → s.calls = s.callLog.length
  /-- Clients send messages of the client role only. -/
  asked : ∀ c ∈ w.connections, ∀ sent, c.party = .client sent → ∀ frames ∈ sent,
    ∃ rest, frames = .empty :: .ofText Wire.clientRole :: rest

/-- The broker's registry fits the parties. -/
structure Wired (w : World) : Prop extends Joined w where
  consistent : w.broker.Consistent
  drained : w.broker.outbox = []
  staffed : w.broker.Staffed w.known

/-! ## Identities -/

theorem connection?_eq_some {peer : Frame} {c : Connection} (h : w.connection? peer = some c) :
    c ∈ w.connections ∧ c.identity = peer := by
  have hi := List.find?_some h
  exact ⟨List.mem_of_find?_eq_some h,by simpa using hi⟩

theorem Joined.connection?_identity (h : w.Joined) {c : Connection} (hc : c ∈ w.connections) :
    w.connection? c.identity = some c := by
  have hs : (w.connection? c.identity).isSome = true :=
    List.find?_isSome.mpr ⟨c,hc,decide_eq_true rfl⟩
  obtain ⟨d,hd⟩ := Option.isSome_iff_exists.mp hs
  obtain ⟨hm,hid⟩ := connection?_eq_some hd
  obtain ⟨j,hj⟩ := List.getElem?_of_mem hm
  obtain ⟨k,hk⟩ := List.getElem?_of_mem hc
  have hjl := (List.getElem?_eq_some_iff.mp hj).1
  have hkl := (List.getElem?_eq_some_iff.mp hk).1
  have hf := h.fits
  have he : j = k := by
    apply Peer.identity_inj (by omega) (by omega)
    rw [← h.identities j d hj, ← h.identities k c hk, hid]
  subst he
  rw [hd, ← hj, hk]

theorem Joined.known_identity (h : w.Joined) {c : Connection} (hc : c ∈ w.connections) :
    w.known c.identity = w.serviceOf? c := by
  rw [known, h.connection?_identity hc]
  rfl

theorem known_eq_some {peer : Frame} {name : String} (h : w.known peer = some name) :
    ∃ c ∈ w.connections, c.identity = peer ∧ w.serviceOf? c = some name := by
  obtain ⟨c,hc,hs⟩ := Option.bind_eq_some_iff.mp h
  obtain ⟨hm,hi⟩ := connection?_eq_some hc
  exact ⟨c,hm,hi,hs⟩

/-! ## Growing -/

theorem Grows.refl (w : World) : Grows w w :=
  ⟨fun _ s hs => ⟨s,hs,.refl s⟩,
    fun _ c hc => ⟨c,hc,rfl,rfl⟩⟩

theorem Grows.serviceOf? (h : Grows w w') {c : Connection} {name : String}
    (hs : w.serviceOf? c = some name) : w'.serviceOf? c = some name := by
  obtain ⟨⟨i,n⟩,hl,hs⟩ := Option.bind_eq_some_iff.mp hs
  obtain ⟨s,hw,rfl⟩ := Option.map_eq_some_iff.mp hs
  obtain ⟨s',hw',hc⟩ := h.workers i s hw
  simp [World.serviceOf?, hl, hw', hc.settings]

theorem Grows.known (h : Grows w w') (hj : w'.Joined) {peer : Frame} {name : String}
    (hk : w.known peer = some name) : w'.known peer = some name := by
  obtain ⟨c,hc,rfl,hs⟩ := known_eq_some hk
  obtain ⟨k,hk⟩ := List.getElem?_of_mem hc
  obtain ⟨c',hc',hi,hl⟩ := h.connections k c hk
  rw [← hi, hj.known_identity (List.mem_of_getElem? hc')]
  have hs' := h.serviceOf? hs
  rwa [World.serviceOf?, ← hl] at hs'

theorem Grows.staffed (h : Grows w w') (hj : w'.Joined) {m : Mediator} (hm : m.Staffed w.known) :
    m.Staffed w'.known :=
  fun key v hv => h.known hj (hm key v hv)

theorem Grows.answered (h : Grows w w') {service : String} {client : Frame} {body reply : Message}
    (ha : w.Answered service client body reply) : w'.Answered service client body reply := by
  obtain ⟨s,hs,rfl,n,hn,hr⟩ := ha
  obtain ⟨i,hi⟩ := List.getElem?_of_mem hs
  obtain ⟨s',hs',hc⟩ := h.workers i s hi
  obtain ⟨more,hm⟩ := hc.logged
  refine ⟨s',List.mem_of_getElem? hs',congrArg _ hc.settings,n,?_,hc.settings ▸ hr⟩
  obtain ⟨hl,_⟩ := List.getElem?_eq_some_iff.mp hn
  rw [← hm, List.getElem?_append_left hl, hn]

theorem Grows.trans (h : Grows w w') (h' : Grows w' w'') : Grows w w'' := by
  refine ⟨?_,?_⟩
  · intro i s hs
    obtain ⟨s',hs',hc⟩ := h.workers i s hs
    obtain ⟨s'',hs'',hc'⟩ := h'.workers i s' hs'
    exact ⟨s'',hs'',hc.trans hc'⟩
  · intro k c hc
    obtain ⟨c',hc',hi,hl⟩ := h.connections k c hc
    obtain ⟨c'',hc'',hi',hl'⟩ := h'.connections k c' hc'
    exact ⟨c'',hc'',hi'.trans hi,hl'.trans hl⟩

theorem Grows.of_eq (hw : w'.workers = w.workers) (hc : w'.connections = w.connections) :
    Grows w w' := by
  refine ⟨?_,?_⟩
  · intro i s hs
    exact ⟨s,hw ▸ hs,Worker.State.Continues.refl s⟩
  · intro k c hk
    exact ⟨c,hc ▸ hk,rfl,rfl⟩

/-! ## What keeps the parties joined -/

theorem Joined.of_eq (h : w.Joined) (hw : w'.workers = w.workers)
    (hc : w'.connections = w.connections) : w'.Joined := by
  obtain ⟨_,connections,workers,_⟩ := w'
  subst hw hc
  exact ⟨h.fits,h.identities,h.links,h.opened,h.spoken,h.docked,h.counted,h.asked⟩

theorem onWorker_workers (w : World) (i j : Nat) (f : Worker.State → Worker.State) :
    (w.onWorker i f).workers[j]? = if i = j then w.workers[j]?.map f else w.workers[j]? := by
  simp only [onWorker, List.getElem?_modify]
  split
  · rfl
  · cases w.workers[j]? <;> rfl

section OnWorker
variable {i : Nat} {f : Worker.State → Worker.State}
  (hf : ∀ s, w.workers[i]? = some s → s.Continues (f s))
include hf

theorem continues_of_onWorker {j : Nat} {s' : Worker.State}
    (h : (w.onWorker i f).workers[j]? = some s') :
    ∃ s, w.workers[j]? = some s ∧ s.Continues s' := by
  rw [onWorker_workers] at h
  split at h
  · rename_i he
    subst he
    obtain ⟨s,hs,rfl⟩ := Option.map_eq_some_iff.mp h
    exact ⟨s,hs,hf s hs⟩
  · exact ⟨s',h,.refl s'⟩

theorem grows_onWorker : Grows w (w.onWorker i f) := by
  refine ⟨?_,fun k c hc => ⟨c,hc,rfl,rfl⟩⟩
  intro j s hs
  rw [onWorker_workers]
  by_cases he : i = j
  · subst he
    exact ⟨f s,by simp [hs],hf s hs⟩
  · exact ⟨s,by simp [he, hs],.refl s⟩

theorem Joined.onWorker (h : w.Joined) : (w.onWorker i f).Joined := by
  refine ⟨h.fits,h.identities,h.links,?_,?_,?_,?_,h.asked⟩
  · intro c hc j n hl
    obtain ⟨s,hs,hn⟩ := h.opened c hc j n hl
    obtain ⟨s',hs',hc'⟩ := (grows_onWorker hf).workers j s hs
    exact ⟨s',hs',Nat.lt_of_lt_of_le hn hc'.opened⟩
  · intro j s' hs'
    obtain ⟨s,hs,hc⟩ := continues_of_onWorker hf hs'
    exact hc.spoken (h.spoken j s hs)
  · intro j s' hs'
    obtain ⟨s,hs,hc⟩ := continues_of_onWorker hf hs'
    exact hc.docked (h.docked j s hs)
  · intro j s' hs'
    obtain ⟨s,hs,hc⟩ := continues_of_onWorker hf hs'
    exact hc.counted (h.counted j s hs)

end OnWorker

theorem grows_connect (party : Party) (w : World) : Grows w (w.connect party) := by
  refine ⟨fun i s hs => ⟨s,hs,.refl s⟩,?_⟩
  intro k c hc
  obtain ⟨hk,_⟩ := List.getElem?_eq_some_iff.mp hc
  exact ⟨c,(List.getElem?_append_left hk).trans hc,rfl,rfl⟩

/-- A connection to a link that has none yet, or of a client that has said nothing. -/
theorem Joined.connect (h : w.Joined) {party : Party} (hf : w.connections.length < 2 ^ 64)
    (hl : ∀ i n, (⟨Peer.identity w.connections.length,party⟩ : Connection).link? = some (i,n) →
      (∃ s, w.workers[i]? = some s ∧ n < s.network.links.length) ∧
        ∀ c ∈ w.connections, c.link? ≠ some (i,n))
    (hs : ∀ sent, party = .client sent → sent = []) : (w.connect party).Joined := by
  have hmem : ∀ c ∈ (w.connect party).connections,
      c ∈ w.connections ∨ c = ⟨Peer.identity w.connections.length,party⟩ := by
    intro c hc
    simpa [World.connect] using hc
  refine ⟨?_,?_,?_,?_,h.spoken,h.docked,h.counted,?_⟩
  · simp only [World.connect, List.length_append, List.length_singleton]
    omega
  · intro k c hc
    by_cases hk : k < w.connections.length
    · exact h.identities k c ((List.getElem?_append_left hk).symm.trans hc)
    · have hlt := (List.getElem?_eq_some_iff.mp hc).1
      simp only [World.connect, List.length_append, List.length_singleton] at hlt
      obtain rfl : k = w.connections.length := by omega
      simp only [World.connect, List.getElem?_concat_length] at hc
      exact (Option.some.inj hc) ▸ rfl
  · simp only [World.connect, List.filterMap_append]
    cases hp : (⟨Peer.identity w.connections.length,party⟩ : Connection).link? with
    | none => simpa [hp] using h.links
    | some l =>
      obtain ⟨i,n⟩ := l
      have hfresh : (i,n) ∉ w.connections.filterMap (·.link?) := by
        intro hm
        obtain ⟨c,hc,hcl⟩ := List.mem_filterMap.mp hm
        exact (hl i n hp).2 c hc hcl
      have hd : ((i,n) :: w.connections.filterMap (·.link?)).Nodup :=
        List.nodup_cons.mpr ⟨hfresh,h.links⟩
      have hperm : (w.connections.filterMap (·.link?) ++ [(i,n)]).Perm
          ((i,n) :: w.connections.filterMap (·.link?)) := List.perm_append_comm
      simpa [hp] using hperm.nodup_iff.mpr hd
  · intro c hc i n hcl
    rcases hmem c hc with hc | rfl
    · exact h.opened c hc i n hcl
    · exact (hl i n hcl).1
  · intro c hc sent hp frames hfr
    rcases hmem c hc with hc | rfl
    · exact h.asked c hc sent hp frames hfr
    · rw [hs sent hp] at hfr
      cases hfr

theorem exists_split {α : Type} {l : List α} {k : Nat} {a : α} (h : l[k]? = some a) (b : α) :
    ∃ pre post, pre.length = k ∧ l = pre ++ a :: post ∧ l.set k b = pre ++ b :: post := by
  obtain ⟨hk,rfl⟩ := List.getElem?_eq_some_iff.mp h
  refine ⟨l.take k,l.drop (k + 1),by simp; omega,?_,?_⟩
  · rw [List.getElem_cons_drop, List.take_append_drop]
  · rw [List.set_eq_take_append_cons_drop, if_pos hk]

/-- A connection may change as long as it leads to the same party. -/
theorem Joined.setConnection (h : w.Joined) {k : Nat} {c c' : Connection}
    (hc : w.connections[k]? = some c) (hi : c'.identity = c.identity) (hl : c'.link? = c.link?)
    (ha : ∀ sent, c'.party = .client sent → ∀ frames ∈ sent,
      ∃ rest, frames = .empty :: .ofText Wire.clientRole :: rest) :
    (w.setConnection k c').Joined := by
  obtain ⟨pre,post,hk,he,hset⟩ := exists_split hc c'
  have hmem : ∀ d ∈ w.connections.set k c', d ∈ w.connections ∨ d = c' :=
    fun d hd => (List.mem_or_eq_of_mem_set hd)
  have hcm : c ∈ w.connections := List.mem_of_getElem? hc
  refine ⟨?_,?_,?_,?_,h.spoken,h.docked,h.counted,?_⟩
  · simpa [World.setConnection] using h.fits
  · intro j d hd
    simp only [World.setConnection] at hd
    rw [List.getElem?_set] at hd
    split at hd
    · rename_i hj
      split at hd
      · cases hd
        exact hj ▸ hi.trans (h.identities k c hc)
      · cases hd
    · exact h.identities j d hd
  · have hn := h.links
    simp only [World.setConnection]
    rw [he] at hn
    rw [hset]
    simpa only [List.filterMap_append, List.filterMap_cons, hl] using hn
  · intro d hd i n hdl
    rcases hmem d hd with hd | rfl
    · exact h.opened d hd i n hdl
    · exact h.opened c hcm i n (hl ▸ hdl)
  · intro d hd sent hp frames hf
    rcases hmem d hd with hd | rfl
    · exact h.asked d hd sent hp frames hf
    · exact ha sent hp frames hf

theorem grows_setConnection {k : Nat} {c c' : Connection} (hc : w.connections[k]? = some c)
    (hi : c'.identity = c.identity) (hl : c'.link? = c.link?) :
    Grows w (w.setConnection k c') := by
  refine ⟨fun i s hs => ⟨s,hs,.refl s⟩,?_⟩
  intro j d hd
  by_cases hj : k = j
  · subst hj
    obtain rfl := Option.some.inj (hc.symm.trans hd)
    have hlt := (List.getElem?_eq_some_iff.mp hc).1
    exact ⟨c',by simp [World.setConnection, hlt],hi,hl⟩
  · exact ⟨d,by simpa [World.setConnection, hj] using hd,rfl,rfl⟩

theorem Joined.employ (h : w.Joined) (settings : Worker.Settings) (monitor : Monitor) :
    Joined { w with workers := w.workers ++ [.start settings {} monitor] } := by
  have hmem : ∀ (i : Nat) (s : Worker.State),
      (w.workers ++ [Worker.State.start settings {} monitor])[i]? = some s →
      w.workers[i]? = some s ∨ s = .start settings {} monitor := by
    intro i s hs
    by_cases hi : i < w.workers.length
    · exact .inl ((List.getElem?_append_left hi).symm.trans hs)
    · have hm := List.mem_of_getElem?
        ((List.getElem?_append_right (Nat.le_of_not_lt hi)).symm.trans hs)
      exact .inr (List.mem_singleton.mp hm)
  refine ⟨h.fits,h.identities,h.links,?_,?_,?_,?_,h.asked⟩
  · intro c hc i n hl
    obtain ⟨s,hs,hn⟩ := h.opened c hc i n hl
    obtain ⟨hi,_⟩ := List.getElem?_eq_some_iff.mp hs
    exact ⟨s,(List.getElem?_append_left hi).trans hs,hn⟩
  · intro i s hs
    rcases hmem i s hs with hs | rfl
    · exact h.spoken i s hs
    · intro n l hl
      cases hl
  · intro i s hs
    rcases hmem i s hs with hs | rfl
    · exact h.docked i s hs
    · exact fun n hn => absurd rfl hn
  · intro i s hs
    rcases hmem i s hs with hs | rfl
    · exact h.counted i s hs
    · rfl

theorem grows_employ (settings : Worker.Settings) (monitor : Monitor) (w : World) :
    Grows w { w with workers := w.workers ++ [.start settings {} monitor] } := by
  refine ⟨?_,fun k c hc => ⟨c,hc,rfl,rfl⟩⟩
  intro i s hs
  obtain ⟨hi,_⟩ := List.getElem?_eq_some_iff.mp hs
  exact ⟨s,(List.getElem?_append_left hi).trans hs,.refl s⟩

/-! ## Deliveries -/

/-- A message of the broker reaches the connection of a worker, or nobody. -/
theorem deliver_cases (w : World) (o : Outbound) :
    w.deliver o = w ∨ ∃ i n, w.deliver o =
      w.onWorker i fun s => (s.onNetwork (.offer n (.message o.frames))).2 := by
  unfold deliver
  split
  · exact .inr ⟨_,_,rfl⟩
  · exact .inl rfl

theorem Joined.deliver (h : w.Joined) (o : Outbound) : (w.deliver o).Joined := by
  rcases w.deliver_cases o with he | ⟨i,n,he⟩ <;> rw [he]
  · exact h
  · exact h.onWorker fun s _ => (Worker.State.offer_passes n _ s).continues_of_stage rfl

theorem grows_deliver (w : World) (o : Outbound) : Grows w (w.deliver o) := by
  rcases w.deliver_cases o with he | ⟨i,n,he⟩ <;> rw [he]
  · exact .refl w
  · exact grows_onWorker fun s _ => (Worker.State.offer_passes n _ s).continues_of_stage rfl

theorem Joined.foldl_deliver (h : w.Joined) (os : List Outbound) :
    (os.foldl World.deliver w).Joined := by
  induction os generalizing w with
  | nil => exact h
  | cons o os ih => exact ih (h.deliver o)

theorem grows_foldl_deliver (os : List Outbound) (w : World) : Grows w (os.foldl deliver w) := by
  induction os generalizing w with
  | nil => exact .refl w
  | cons o os ih => exact (grows_deliver w o).trans (ih (w.deliver o))

end World
end Majordomo.Exchange
