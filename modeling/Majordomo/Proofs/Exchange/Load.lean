import Majordomo.Proofs.Exchange.Wiring

/-! # What is on its way

How often a parcel is on its way: among the requests that wait at the broker and on all the
connections together. Each step of the world is accounted for by what it takes from one
place and puts in another.
-/
namespace Majordomo

/-- How often the parcel waits at the broker for a worker. -/
def Broker.Mediator.awaited (m : Broker.Mediator) : Exchange.Parcel → Nat
  | .request client service body =>
    (m.service service).pending.count ((Envelope.ofBody body).wrap client)
  | .reply .. => 0

namespace Exchange
open Broker (Mediator Outbound)

/-! ## Counting in joined lists -/

section Counting
variable {α : Type} {l : List α} {f g : α → List Parcel} {p : Parcel}

theorem count_flatMap_le (h : ∀ a ∈ l, (f a).count p ≤ (g a).count p) :
    (l.flatMap f).count p ≤ (l.flatMap g).count p := by
  induction l with
  | nil => exact Nat.le_refl _
  | cons a l ih =>
    have ha := h a (List.mem_cons_self ..)
    have hl := ih fun b hb => h b (List.mem_cons_of_mem a hb)
    simp only [List.flatMap_cons, List.count_append]
    omega

/-- One member of the list makes the difference. -/
theorem count_flatMap_change {x : α} {a b : Nat} (hn : l.Nodup) (hx : x ∈ l)
    (h : ∀ y ∈ l, y ≠ x → (f y).count p ≤ (g y).count p)
    (hc : (f x).count p + a ≤ (g x).count p + b) :
    (l.flatMap f).count p + a ≤ (l.flatMap g).count p + b := by
  obtain ⟨pre,post,rfl⟩ := List.append_of_mem hx
  have hd := (List.nodup_middle.mp hn)
  obtain ⟨hnot,_⟩ := List.nodup_cons.mp hd
  have hpre := count_flatMap_le (l := pre) (f := f) (g := g) (p := p) fun y hy =>
    h y (List.mem_append_left _ hy) fun e => hnot (e ▸ List.mem_append_left _ hy)
  have hpost := count_flatMap_le (l := post) (f := f) (g := g) (p := p) fun y hy =>
    h y (List.mem_append_right _ (List.mem_cons_of_mem _ hy)) fun e =>
      hnot (e ▸ List.mem_append_right _ hy)
  simp only [List.flatMap_append, List.flatMap_cons, List.count_append]
  omega

end Counting

namespace World
variable {w : World}

def carried (w : World) (c : Connection) : List Parcel :=
  match c.party with
  | .client sent => sent.filterMap (Parcel.asked? c.identity)
  | .worker i n taken => w.workers[i]?.elim [] (·.parcels n taken)

def load (w : World) (p : Parcel) : Nat :=
  w.broker.awaited p + (w.connections.flatMap w.carried).count p

def sought (w : World) (o : Outbound) : List Parcel :=
  ((w.known o.peer).bind fun name => Parcel.sought? name o.frames).toList

theorem Joined.connections_nodup (h : w.Joined) : w.connections.Nodup := by
  apply List.nodup_iff_injective_getElem.mpr
  rintro ⟨j,hj⟩ ⟨k,hk⟩ he
  have hid : Peer.identity j = Peer.identity k := by
    rw [← h.identities j _ (List.getElem?_eq_getElem hj),
      ← h.identities k _ (List.getElem?_eq_getElem hk)]
    exact congrArg Connection.identity he
  have hf := h.fits
  exact Fin.ext (Peer.identity_inj (by omega) (by omega) hid)

/-- No two connections lead to the same one of a worker. -/
theorem Joined.link?_inj (h : w.Joined) {c d : Connection} (hc : c ∈ w.connections)
    (hd : d ∈ w.connections) {l : Nat × Nat} (hcl : c.link? = some l) (hdl : d.link? = some l) :
    c = d := by
  by_contra hne
  obtain ⟨pre,post,he⟩ := List.append_of_mem hc
  have hn := h.links
  rw [he, List.filterMap_append, List.filterMap_cons_some hcl] at hn
  obtain ⟨hnot,_⟩ := List.nodup_cons.mp (List.nodup_middle.mp hn)
  rw [he] at hd
  rcases List.mem_append.mp hd with hd | hd
  · exact hnot (List.mem_append_left _ (List.mem_filterMap.mpr ⟨d,hd,hdl⟩))
  · rcases List.mem_cons.mp hd with rfl | hd
    · exact hne rfl
    · exact hnot (List.mem_append_right _ (List.mem_filterMap.mpr ⟨d,hd,hdl⟩))

/-! ## Changes of a worker -/

theorem load_onWorker_of_keeps {i : Nat} {f : Worker.State → Worker.State}
    (hf : ∀ s, w.workers[i]? = some s → s.Keeps (f s)) (p : Parcel) :
    (w.onWorker i f).load p ≤ w.load p := by
  apply Nat.add_le_add_left
  apply count_flatMap_le
  intro c _
  obtain ⟨identity,party⟩ := c
  cases party with
  | client sent => exact Nat.le_refl _
  | worker j n taken =>
    simp only [carried, onWorker_workers]
    split
    · rename_i he
      subst he
      cases hs : w.workers[i]? with
      | none => exact Nat.le_refl _
      | some s => exact (hf s hs).parcels n taken p
    · exact Nat.le_refl _

/-- What one of its connections carries is all that changes with a worker. -/
theorem carried_onWorker_of_ne {i n : Nat} {f : Worker.State → Worker.State} {p : Parcel}
    (hf : ∀ s, w.workers[i]? = some s → ∀ k taken, k ≠ n →
      ((f s).parcels k taken).count p ≤ (s.parcels k taken).count p) {c : Connection}
    (hc : c.link? ≠ some (i,n)) :
    ((w.onWorker i f).carried c).count p ≤ (w.carried c).count p := by
  obtain ⟨identity,party⟩ := c
  cases party with
  | client sent => exact Nat.le_refl _
  | worker j k taken =>
    simp only [carried, onWorker_workers]
    split
    · rename_i he
      subst he
      cases hs : w.workers[i]? with
      | none => exact Nat.le_refl _
      | some s =>
        refine hf s hs k taken ?_
        rintro rfl
        exact hc rfl
    · exact Nat.le_refl _

/-- A worker calls its handler: the reply, if there is one, takes the place of the request. -/
theorem Joined.load_onWorker_of_calls (h : w.Joined) {i id : Nat} {client : Frame}
    {body : Message} {f : Worker.State → Worker.State} {s : Worker.State}
    (hs : w.workers[i]? = some s) (hc : Worker.State.Calls id client body s (f s)) :
    (∀ p, (w.onWorker i f).load p ≤ w.load p) ∨
    ∀ p, (w.onWorker i f).load p + [Parcel.request client s.settings.announced body].count p ≤
      w.load p + ((s.settings.handler s.calls client body).result.toOption.map
        (Parcel.reply client s.settings.announced)).toList.count p := by
  have hother : ∀ p, ∀ t, w.workers[i]? = some t → ∀ k taken, k ≠ id →
      ((f t).parcels k taken).count p ≤ (t.parcels k taken).count p := by
    intro p t ht k taken hk
    obtain rfl := Option.some.inj (hs.symm.trans ht)
    simpa [hk] using hc.parcels k taken p
  by_cases hx : ∃ c ∈ w.connections, c.link? = some (i,id)
  · obtain ⟨c,hm,hl⟩ := hx
    right
    intro p
    have hch := count_flatMap_change (p := p) h.connections_nodup hm
      (f := (w.onWorker i f).carried) (g := w.carried)
      (a := [Parcel.request client s.settings.announced body].count p)
      (b := ((s.settings.handler s.calls client body).result.toOption.map
        (Parcel.reply client s.settings.announced)).toList.count p)
      (fun d hd hne => carried_onWorker_of_ne (hother p) fun hdl =>
        hne (h.link?_inj hd hm hdl hl)) ?_
    · change w.broker.awaited p + _ + _ ≤ w.broker.awaited p + _ + _
      have he : (w.onWorker i f).connections = w.connections := rfl
      rw [he]
      omega
    · obtain ⟨identity,party⟩ := c
      cases party with
      | client sent => cases hl
      | worker j k taken =>
        cases hl
        simpa [carried, onWorker_workers, hs] using hc.parcels id taken p
  · left
    intro p
    apply Nat.add_le_add_left
    apply count_flatMap_le
    intro c hm
    exact carried_onWorker_of_ne (hother p) fun hl => hx ⟨c,hm,hl⟩

/-! ## Deliveries -/

theorem known_onWorker {i : Nat} {f : Worker.State → Worker.State}
    (hf : ∀ s, (f s).settings = s.settings) (w : World) (peer : Frame) :
    (w.onWorker i f).known peer = w.known peer := by
  have hs : ∀ c, (w.onWorker i f).serviceOf? c = w.serviceOf? c := by
    intro c
    cases hl : c.link? with
    | none => simp [serviceOf?, hl]
    | some l =>
      obtain ⟨j,n⟩ := l
      simp only [serviceOf?, hl, Option.bind_some, onWorker_workers]
      split
      · cases w.workers[j]? <;> simp [hf]
      · rfl
  simp only [known, hs]
  rfl

theorem known_deliver (w : World) (o : Outbound) (peer : Frame) :
    (w.deliver o).known peer = w.known peer := by
  rcases w.deliver_cases o with he | ⟨i,n,he⟩ <;> rw [he]
  apply known_onWorker
  intro s
  rfl

/-- What the broker sends is all that is on its way in addition. -/
theorem Joined.load_deliver (h : w.Joined) (o : Outbound) (p : Parcel) :
    (w.deliver o).load p ≤ w.load p + (w.sought o).count p := by
  unfold World.deliver
  split
  · rename_i identity i n taken hc
    obtain ⟨hm,hid⟩ := connection?_eq_some hc
    obtain ⟨s,hs,_⟩ := h.opened _ hm i n rfl
    have hk : w.known o.peer = some s.settings.announced := by
      simp [known, hc, serviceOf?, Connection.link?, hs]
    have hso : w.sought o = (Parcel.sought? s.settings.announced o.frames).toList := by
      simp [sought, hk]
    have ho : ∀ t : Worker.State, ∀ k taken,
        ((t.onNetwork (.offer n (.message o.frames))).2.parcels k taken).count p ≤
          (t.parcels k taken).count p + if k = n then
            (Parcel.sought? t.settings.announced o.frames).toList.count p else 0 := by
      intro t k taken
      simpa using (Worker.State.offer_passes n (.message o.frames) t).parcels_of_stage rfl k taken p
    have hch := count_flatMap_change (p := p) h.connections_nodup hm (a := 0)
      (f := (w.onWorker i fun s => (s.onNetwork (.offer n (.message o.frames))).2).carried)
      (g := w.carried) (b := (w.sought o).count p)
      (fun d hd hne => carried_onWorker_of_ne
        (fun t _ k taken hk => by simpa [hk] using ho t k taken)
        fun hdl => hne (h.link?_inj hd hm hdl rfl)) ?_
    · change w.broker.awaited p + _ ≤ w.broker.awaited p + _ + _
      have he : ∀ f, (w.onWorker i f).connections = w.connections := fun _ => rfl
      rw [he]
      omega
    · rw [hso]
      simpa [carried, onWorker_workers, hs] using ho s n taken
  · exact Nat.le_add_right _ _

/-- What the messages of the broker ask its workers for. -/
theorem Joined.load_foldl_deliver (h : w.Joined) (os : List Outbound) (p : Parcel) :
    (os.foldl World.deliver w).load p ≤ w.load p + (os.flatMap w.sought).count p := by
  induction os generalizing w with
  | nil => exact Nat.le_refl _
  | cons o os ih =>
    have hl := h.load_deliver o p
    have hr := ih (h.deliver o)
    have hs : (w.deliver o).sought = w.sought := by
      funext o'
      simp only [sought, known_deliver]
    rw [hs] at hr
    simp only [List.foldl_cons, List.flatMap_cons, List.count_append]
    omega

/-! ## The broker -/

theorem count_sought_one (w : World) (client : Frame) (service : String) (body : Message)
    (o : Outbound) :
    (w.sought o).count (.request client service body) =
      (if w.known o.peer = some service then Wire.requestOf? o.frames else none).toList.count
        ((Envelope.ofBody body).wrap client) := by
  unfold sought
  cases hk : w.known o.peer with
  | none => simp
  | some name =>
    rw [Option.bind_some]
    cases hr : Wire.requestOf? o.frames with
    | none => simp [Parcel.sought?, hr]
    | some e =>
      obtain ⟨c,he⟩ := Envelope.eq_wrap_of_depth_eq_one (Wire.depth_of_requestOf? hr)
      rw [he] at hr ⊢
      rw [Parcel.sought?_of_requestOf? hr]
      by_cases hn : name = service
      · simp [hn, List.count_singleton, Envelope.ofBody, Envelope.wrap]
      · simp [hn]

theorem count_sought (w : World) (client : Frame) (service : String) (body : Message)
    (os : List Outbound) :
    (os.flatMap w.sought).count (.request client service body) =
      (Mediator.requestsFor w.known service os).count ((Envelope.ofBody body).wrap client) := by
  induction os with
  | nil => rfl
  | cons o os ih =>
    rw [List.flatMap_cons, List.count_append, ih, count_sought_one, Mediator.requestsFor_cons,
      List.count_append]

theorem count_sought_reply (w : World) (client : Frame) (service : String) (body : Message)
    (os : List Outbound) : (os.flatMap w.sought).count (.reply client service body) = 0 := by
  apply List.count_eq_zero.mpr
  intro hm
  obtain ⟨o,_,ho⟩ := List.mem_flatMap.mp hm
  obtain ⟨name,_,hp⟩ := Option.bind_eq_some_iff.mp (Option.mem_toList.mp ho)
  obtain ⟨_,_,he,_⟩ := Parcel.sought?_eq_some hp
  cases he

def brought : Mediator.Operation → List Parcel
  | .handle sender frames _ => (Parcel.asked? sender frames).toList
  | _ => []

theorem count_brought (client : Frame) (service : String) (body : Message)
    (op : Mediator.Operation) :
    (if Wire.isInternal service then [] else op.requestFor service).count
        ((Envelope.ofBody body).wrap client) =
      (brought op).count (.request client service body) := by
  cases op with
  | handle sender frames now =>
    simp only [Mediator.Operation.requestFor, brought, Parcel.asked?]
    cases Wire.Inbound.ofFrames frames with
    | error v => simp
    | ok i =>
      cases i with
      | worker c => simp
      | client name b =>
        by_cases hn : name.toText = service
        · subst hn
          by_cases hi : Wire.isInternal name.toText <;>
            simp [hi, List.count_singleton, Envelope.ofBody, Envelope.wrap]
        · by_cases hi : Wire.isInternal name.toText <;>
            by_cases hs : Wire.isInternal service <;> simp [hi, hs, hn]
  | sweep now | probe now | disconnectAll => simp [Mediator.Operation.requestFor, brought]

/-- The requests that the broker sends out and those that wait afterwards have waited before or
are brought by the operation. -/
theorem Wired.awaited_apply (h : w.Wired) {op : Mediator.Operation} (hp : op.Placed w.known)
    (p : Parcel) :
    (w.broker.apply op).1.awaited p + ((w.broker.apply op).1.outbox.flatMap w.sought).count p ≤
      w.broker.awaited p + (brought op).count p := by
  cases p with
  | reply client service body =>
    rw [count_sought_reply]
    exact Nat.zero_le _
  | request client service body =>
    have hc := congrArg (List.count ((Envelope.ofBody body).wrap client))
      (h.staffed.requestsFor_apply h.consistent h.drained hp service)
    rw [List.count_append, List.count_append, count_brought, ← count_sought] at hc
    simp only [Mediator.awaited]
    omega

theorem Wired.load_operate (h : w.Wired) {op : Mediator.Operation} (hp : op.Placed w.known)
    (p : Parcel) : (w.operate op).load p ≤ w.load p + (brought op).count p := by
  have ha := h.awaited_apply hp p
  have hj : Joined { w with broker := (w.broker.apply op).1.drain.2 } := h.toJoined.of_eq rfl rfl
  have hd := hj.load_foldl_deliver (w.broker.apply op).1.outbox p
  have hl : (w.operate op).load p =
      ((w.broker.apply op).1.outbox.foldl World.deliver
        { w with broker := (w.broker.apply op).1.drain.2 }).load p := rfl
  have hb : World.load { w with broker := (w.broker.apply op).1.drain.2 } p =
      (w.broker.apply op).1.awaited p + (w.connections.flatMap w.carried).count p := by
    cases p <;> rfl
  have hs : World.sought { w with broker := (w.broker.apply op).1.drain.2 } = w.sought := rfl
  have hw : w.load p = w.broker.awaited p + (w.connections.flatMap w.carried).count p := rfl
  rw [hb, hs] at hd
  rw [hl, hw]
  omega

/-! ## Connections -/

theorem load_setConnection {k : Nat} {c : Connection} (hc : w.connections[k]? = some c)
    (c' : Connection) (p : Parcel) :
    (w.setConnection k c').load p + (w.carried c).count p =
      w.load p + (w.carried c').count p := by
  obtain ⟨pre,post,_,he,hset⟩ := exists_split hc c'
  have hl : (w.setConnection k c').load p =
      w.broker.awaited p + ((w.connections.set k c').flatMap w.carried).count p := rfl
  have hw : w.load p = w.broker.awaited p + (w.connections.flatMap w.carried).count p := rfl
  rw [hl, hw, hset, he]
  simp only [List.flatMap_append, List.flatMap_cons, List.count_append]
  omega

theorem load_connect (party : Party) (w : World) (p : Parcel) :
    (w.connect party).load p =
      w.load p + (w.carried ⟨Peer.identity w.connections.length,party⟩).count p := by
  have hl : (w.connect party).load p = w.broker.awaited p +
      ((w.connections ++ [(⟨Peer.identity w.connections.length,party⟩ : Connection)]).flatMap
        w.carried).count p := rfl
  have hw : w.load p = w.broker.awaited p + (w.connections.flatMap w.carried).count p := rfl
  rw [hl, hw, List.flatMap_append, List.count_append]
  simp only [List.flatMap_cons, List.flatMap_nil, List.append_nil]
  omega

theorem Joined.load_employ (h : w.Joined) (s : Worker.State) (p : Parcel) :
    World.load { w with workers := w.workers ++ [s] } p ≤ w.load p := by
  apply Nat.add_le_add_left
  apply count_flatMap_le
  intro c hc
  obtain ⟨identity,party⟩ := c
  cases party with
  | client sent => exact Nat.le_refl _
  | worker i n taken =>
    obtain ⟨t,ht,_⟩ := h.opened _ hc i n rfl
    obtain ⟨hi,_⟩ := List.getElem?_eq_some_iff.mp ht
    simp only [carried, List.getElem?_append_left hi]
    exact Nat.le_refl _

def told (w : World) (c : Connection) (frames : Message) : List Parcel :=
  match c.party with
  | .client _ => (Parcel.asked? c.identity frames).toList
  | .worker .. => ((w.serviceOf? c).bind fun name => Parcel.given? name frames).toList

theorem count_filterMap_cons {α : Type} (f : α → Option Parcel) (a : α) (l : List α) (p : Parcel) :
    ((a :: l).filterMap f).count p = (f a).toList.count p + (l.filterMap f).count p := by
  cases hf : f a <;> simp [hf, List.count_cons, Nat.add_comm]

/-- The oldest message on a connection is the first part of what it carries. -/
theorem count_carried {c : Connection} {frames : Message} (h : w.waiting? c = some frames)
    (p : Parcel) :
    (w.carried c).count p = (w.told c frames).count p + (w.carried c.advance).count p := by
  obtain ⟨identity,party⟩ := c
  cases party with
  | client sent =>
    obtain ⟨rest,rfl⟩ := List.head?_eq_some_iff.mp h
    exact count_filterMap_cons _ frames rest p
  | worker i n taken =>
    obtain ⟨l,hl,hf⟩ := Option.bind_eq_some_iff.mp h
    obtain ⟨s,hs,hl⟩ := Option.bind_eq_some_iff.mp hl
    obtain ⟨ht,hf⟩ := List.getElem?_eq_some_iff.mp hf
    have hd : l.taken.drop taken = frames :: l.taken.drop (taken + 1) := by
      rw [List.drop_eq_getElem_cons ht, hf]
    simp only [carried, Connection.advance, told, serviceOf?, Connection.link?, hs,
      Option.elim_some, Option.bind_some, Option.map_some, Worker.State.parcels,
      Worker.State.carried, hl, Link.parcels, List.count_append, hd, count_filterMap_cons]
    omega

end World
end Exchange
end Majordomo
