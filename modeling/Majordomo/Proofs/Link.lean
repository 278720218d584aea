import Majordomo.Link

/-! # What happens to connections

Connections are looked at one by one: what each operation does to the one with a given
number. A half that was given up is never held again, and what the far end has taken stays.
-/
namespace Majordomo

def Arrival.received : Arrival → Received
  | .message frames => .message frames
  | .failure reason => .failed (.transport reason)

end Majordomo

namespace Majordomo.Network
variable (n : Network)

@[simp] theorem links_update_length (id : Nat) (f : Link → Link) :
    (n.update id f).links.length = n.links.length := by
  simp [update]

theorem link?_update (id k : Nat) (f : Link → Link) :
    (n.update id f).link? k = if id = k then (n.link? k).map f else n.link? k := by
  simp only [update, link?, List.getElem?_modify]
  split
  · rfl
  · cases n.links[k]? <;> rfl

theorem send_eq_ok {n n' : Network} {id : Nat} {m : Message} (h : n.send id m = .ok n') :
    ∃ l, n.link? id = some l ∧ n' = n.update id fun _ => { l with taken := l.taken ++ [m] } := by
  unfold send at h
  split at h
  · cases h
  · rename_i l hl
    unfold Link.write at h
    split at h
    · cases h
      exact ⟨l,hl,rfl⟩
    · cases h

theorem dial_of_accept {n : Network} (hm : n.mode = .accept) (address : String) :
    n.dial address =
      (.opened n.links.length,{ n with links := n.links ++ [({ address } : Link)] }) := by
  unfold dial
  rw [hm]

theorem dial_of_refuse {n : Network} (hm : n.mode = .refuse) (address : String) :
    n.dial address = (.refused (.refused address),n) := by
  unfold dial
  rw [hm]

theorem dial_of_hang {n : Network} (hm : n.mode = .hang) (address : String) :
    n.dial address = (.hanging,n) := by
  unfold dial
  rw [hm]

/-- An attempt to connect opens the next connection or changes nothing. -/
theorem dial_cases (address : String) :
    n.dial address = (.opened n.links.length,{ n with links := n.links ++ [{ address }] }) ∨
      (∃ f, n.dial address = (.refused f,n)) ∨ n.dial address = (.hanging,n) := by
  unfold dial
  split
  · exact .inl rfl
  · exact .inr (.inl ⟨_,rfl⟩)
  · exact .inr (.inr rfl)

/-- A fresh connection takes what is sent first. -/
theorem send_open (address : String) (m : Message) :
    send n.links.length m { n with links := n.links ++ [({ address } : Link)] } =
      .ok { n with links := n.links ++ [({ address, taken := [m] } : Link)] } := by
  have hlt : n.links.length < (n.links ++ [({ address } : Link)]).length := by simp
  simp [send, link?, Link.write, Except.map, update, List.modify_eq_take_cons_drop hlt]

theorem receive_cases {n n' : Network} {id : Nat} {r : Received} (h : n.receive id = some (r,n')) :
    (∃ l a rest, n.link? id = some l ∧ l.arrivals = a :: rest ∧
      n' = n.update id ({ · with arrivals := rest }) ∧
      r = match a with
        | .message frames => .message frames
        | .failure reason => .failed (.transport reason)) ∨
    r = .ended ∧ n' = n := by
  unfold receive at h
  split at h
  · cases h
  · rename_i l hl
    split at h
    · rename_i ha
      cases h
      exact .inl ⟨l,_,_,hl,ha,rfl,rfl⟩
    · rename_i ha
      cases h
      exact .inl ⟨l,_,_,hl,ha,rfl,rfl⟩
    · split at h
      · cases h
        exact .inr ⟨rfl,rfl⟩
      · cases h

theorem onEvent_offer (id : Nat) (a : Arrival) :
    (n.onEvent (.offer id a)).2 = n ∨
      ∃ l, n.link? id = some l ∧
        (n.onEvent (.offer id a)).2 =
          n.update id fun _ => { l with arrivals := l.arrivals ++ [a] } := by
  unfold onEvent
  dsimp only
  split
  · exact .inl rfl
  · rename_i l hl
    unfold Link.offer
    split
    · rename_i l' hl'
      split at hl'
      · cases hl'
        exact .inr ⟨l,hl,rfl⟩
      · cases hl'
    · exact .inl rfl

/-! ## One part of a connection -/

section Part
variable {α : Type} {n n' : Network} {part : Link → α}

def part? (part : Link → α) (id : Nat) (n : Network) : Option α := (n.link? id).map part

theorem part?_update_of_eq {id : Nat} {f : Link → Link}
    (hf : ∀ l, n.link? id = some l → part (f l) = part l) (k : Nat) :
    (n.update id f).part? part k = n.part? part k := by
  simp only [part?, link?_update]
  split
  · rename_i hk
    subst hk
    cases hl : n.link? id with
    | none => rfl
    | some l => simp [hf l hl]
  · rfl

theorem part?_receive {id : Nat} {r : Received} (h : n.receive id = some (r,n'))
    (hp : ∀ l rest, part { l with arrivals := rest } = part l) (k : Nat) :
    n'.part? part k = n.part? part k := by
  rcases receive_cases h with ⟨l,a,rest,_,_,rfl,_⟩ | ⟨_,rfl⟩
  · exact part?_update_of_eq (fun l _ => hp l rest) k
  · rfl

theorem part?_send {id : Nat} {m : Message} (h : n.send id m = .ok n')
    (hp : ∀ l taken, part { l with taken } = part l) (k : Nat) :
    n'.part? part k = n.part? part k := by
  obtain ⟨l,hl,rfl⟩ := send_eq_ok h
  apply part?_update_of_eq
  intro l' hl'
  obtain rfl : l = l' := Option.some.inj (hl.symm.trans hl')
  exact hp l _

/-- The far end and what it does leave everything alone but the arrivals and its own marks. -/
theorem part?_onEvent (e : Event) (ha : ∀ l arrivals, part { l with arrivals } = part l)
    (hh : ∀ l, part { l with hungUp := true } = part l)
    (hr : ∀ l, part { l with reading := false } = part l) (k : Nat) :
    (n.onEvent e).2.part? part k = n.part? part k := by
  cases e with
  | mode m => rfl
  | offer id a =>
    rcases n.onEvent_offer id a with he | ⟨l,hl,he⟩ <;> rw [he]
    apply part?_update_of_eq
    intro l' hl'
    obtain rfl : l = l' := Option.some.inj (hl.symm.trans hl')
    exact ha l _
  | hangUp id =>
    unfold onEvent
    dsimp only
    split
    · exact part?_update_of_eq (fun l _ => hh l) k
    · rfl
  | stopReading id =>
    unfold onEvent
    dsimp only
    split
    · exact part?_update_of_eq (fun l _ => hr l) k
    · rfl

theorem part?_open (l : Link) (k : Nat) :
    part? part k { n with links := n.links ++ [l] } =
      if k = n.links.length then some (part l) else n.part? part k := by
  simp only [part?, link?]
  split
  · rename_i hk
    simp [hk]
  · rename_i hk
    by_cases hlt : k < n.links.length
    · rw [List.getElem?_append_left hlt]
    · have hle : n.links.length ≤ k := Nat.le_of_not_lt hlt
      have hpos : k - n.links.length ≠ 0 := by omega
      rw [List.getElem?_append_right hle, List.getElem?_eq_none hle]
      cases hd : k - n.links.length with
      | zero => exact absurd hd hpos
      | succ j => rfl

theorem part?_dropSink (id : Nat) (hp : ∀ l, part { l with sinkHeld := false } = part l)
    (k : Nat) : (n.dropSink id).part? part k = n.part? part k :=
  part?_update_of_eq (fun l _ => hp l) k

theorem part?_dropStream (id : Nat) (hp : ∀ l, part { l with streamHeld := false } = part l)
    (k : Nat) : (n.dropStream id).part? part k = n.part? part k :=
  part?_update_of_eq (fun l _ => hp l) k

theorem part?_dropStream_of_ne {id k : Nat} (hk : id ≠ k) :
    (n.dropStream id).part? part k = n.part? part k := by
  simp [part?, dropStream, link?_update, hk]

end Part

/-- What every single operation of a row leaves as it is, the row leaves as it is. -/
theorem foldl_keeps {β : Type} {view : Network → β} {step : Network → Nat → Network}
    (hs : ∀ n id, view (step n id) = view n) (ids : List Nat) (n : Network) :
    view (ids.foldl step n) = view n := by
  induction ids generalizing n with
  | nil => rfl
  | cons id ids ih => rw [List.foldl_cons, ih, hs]

theorem links_receive_length {n n' : Network} {id : Nat} {r : Received}
    (h : n.receive id = some (r,n')) : n'.links.length = n.links.length := by
  rcases receive_cases h with ⟨l,a,rest,_,_,rfl,_⟩ | ⟨_,rfl⟩
  · exact links_update_length ..
  · rfl

theorem mode_receive {n n' : Network} {id : Nat} {r : Received}
    (h : n.receive id = some (r,n')) : n'.mode = n.mode := by
  rcases receive_cases h with ⟨_,_,_,_,_,rfl,_⟩ | ⟨_,rfl⟩ <;> rfl

theorem lt_of_receive {n n' : Network} {id : Nat} {frames : Message}
    (h : n.receive id = some (.message frames,n')) : id < n.links.length := by
  rcases receive_cases h with ⟨l,_,_,hl,_⟩ | ⟨hr,_⟩
  · exact (List.getElem?_eq_some_iff.mp hl).1
  · cases hr

theorem links_foldl_dropSink_length (ids : List Nat) :
    (ids.foldl (fun n id => n.dropSink id) n).links.length = n.links.length :=
  @foldl_keeps Nat (·.links.length) _ (fun n id => n.links_update_length id _) ids n

theorem links_send_length {n n' : Network} {id : Nat} {m : Message}
    (h : n.send id m = .ok n') : n'.links.length = n.links.length := by
  obtain ⟨l,_,rfl⟩ := send_eq_ok h
  exact links_update_length ..

theorem links_onEvent_length (e : Event) : (n.onEvent e).2.links.length = n.links.length := by
  cases e with
  | mode m => rfl
  | offer id a =>
    rcases n.onEvent_offer id a with he | ⟨l,_,he⟩ <;> simp [he]
  | hangUp id =>
    unfold onEvent
    dsimp only
    split <;> simp
  | stopReading id =>
    unfold onEvent
    dsimp only
    split <;> simp

/-! ## Halves that are held -/

def sinkHeld (id : Nat) (n : Network) : Bool := (n.part? Link.sinkHeld id).getD false

def streamHeld (id : Nat) (n : Network) : Bool := (n.part? Link.streamHeld id).getD false

@[simp] theorem sinkHeld_dropSink (id k : Nat) :
    (n.dropSink id).sinkHeld k = (n.sinkHeld k && k != id) := by
  simp only [sinkHeld, part?, dropSink, link?_update]
  by_cases hk : id = k
  · subst hk
    cases n.link? id <;> simp
  · have hne : ¬ k = id := fun e => hk e.symm
    simp [hk, hne]

@[simp] theorem streamHeld_dropStream (id k : Nat) :
    (n.dropStream id).streamHeld k = (n.streamHeld k && k != id) := by
  simp only [streamHeld, part?, dropStream, link?_update]
  by_cases hk : id = k
  · subst hk
    cases n.link? id <;> simp
  · have hne : ¬ k = id := fun e => hk e.symm
    simp [hk, hne]

@[simp] theorem streamHeld_dropSink (id k : Nat) :
    (n.dropSink id).streamHeld k = n.streamHeld k :=
  congrArg (Option.getD · false) (part?_dropSink id (fun _ => rfl) k)

@[simp] theorem sinkHeld_dropStream (id k : Nat) :
    (n.dropStream id).sinkHeld k = n.sinkHeld k :=
  congrArg (Option.getD · false) (part?_dropStream id (fun _ => rfl) k)

theorem sinkHeld_foldl_drop (ids : List Nat) (k : Nat) :
    (ids.foldl (fun n id => n.drop id) n).sinkHeld k = (n.sinkHeld k && !ids.contains k) := by
  induction ids generalizing n with
  | nil => simp
  | cons id ids ih =>
    rw [List.foldl_cons, ih, drop, sinkHeld_dropStream, sinkHeld_dropSink, List.contains_cons,
      Bool.not_or, Bool.and_assoc]
    rfl

theorem streamHeld_foldl_drop (ids : List Nat) (k : Nat) :
    (ids.foldl (fun n id => n.drop id) n).streamHeld k = (n.streamHeld k && !ids.contains k) := by
  induction ids generalizing n with
  | nil => simp
  | cons id ids ih =>
    rw [List.foldl_cons, ih, drop, streamHeld_dropStream, streamHeld_dropSink, List.contains_cons,
      Bool.not_or, Bool.and_assoc]
    rfl

theorem sinkHeld_foldl_dropSink (ids : List Nat) (k : Nat) :
    (ids.foldl (fun n id => n.dropSink id) n).sinkHeld k = (n.sinkHeld k && !ids.contains k) := by
  induction ids generalizing n with
  | nil => simp
  | cons id ids ih =>
    rw [List.foldl_cons, ih, sinkHeld_dropSink, List.contains_cons, Bool.not_or, Bool.and_assoc]
    rfl

theorem streamHeld_foldl_dropSink (ids : List Nat) (k : Nat) :
    (ids.foldl (fun n id => n.dropSink id) n).streamHeld k = n.streamHeld k :=
  foldl_keeps (fun n id => streamHeld_dropSink n id k) ids n

@[simp] theorem sinkHeld_drop (id k : Nat) :
    (n.drop id).sinkHeld k = (n.sinkHeld k && k != id) := by
  simp [drop]

@[simp] theorem streamHeld_drop (id k : Nat) :
    (n.drop id).streamHeld k = (n.streamHeld k && k != id) := by
  simp [drop]

section Held
variable {n n' : Network} {id : Nat}

theorem sinkHeld_receive {r : Received} (h : n.receive id = some (r,n')) (k : Nat) :
    n'.sinkHeld k = n.sinkHeld k :=
  congrArg (Option.getD · false) (part?_receive h (fun _ _ => rfl) k)

theorem streamHeld_receive {r : Received} (h : n.receive id = some (r,n')) (k : Nat) :
    n'.streamHeld k = n.streamHeld k :=
  congrArg (Option.getD · false) (part?_receive h (fun _ _ => rfl) k)

theorem sinkHeld_send {m : Message} (h : n.send id m = .ok n') (k : Nat) :
    n'.sinkHeld k = n.sinkHeld k :=
  congrArg (Option.getD · false) (part?_send h (fun _ _ => rfl) k)

theorem streamHeld_send {m : Message} (h : n.send id m = .ok n') (k : Nat) :
    n'.streamHeld k = n.streamHeld k :=
  congrArg (Option.getD · false) (part?_send h (fun _ _ => rfl) k)

theorem sinkHeld_onEvent (n : Network) (e : Event) (k : Nat) :
    (n.onEvent e).2.sinkHeld k = n.sinkHeld k :=
  congrArg (Option.getD · false)
    (part?_onEvent e (fun _ _ => rfl) (fun _ => rfl) (fun _ => rfl) k)

theorem streamHeld_onEvent (n : Network) (e : Event) (k : Nat) :
    (n.onEvent e).2.streamHeld k = n.streamHeld k :=
  congrArg (Option.getD · false)
    (part?_onEvent e (fun _ _ => rfl) (fun _ => rfl) (fun _ => rfl) k)

theorem sinkHeld_open (n : Network) (l : Link) (k : Nat) :
    sinkHeld k { n with links := n.links ++ [l] } =
      if k = n.links.length then l.sinkHeld else n.sinkHeld k := by
  simp only [sinkHeld, part?_open]
  split <;> rfl

theorem streamHeld_open (n : Network) (l : Link) (k : Nat) :
    streamHeld k { n with links := n.links ++ [l] } =
      if k = n.links.length then l.streamHeld else n.streamHeld k := by
  simp only [streamHeld, part?_open]
  split <;> rfl

end Held

/-! ## What the far end has taken -/

def takenBy (id : Nat) (n : Network) : List Message := (n.part? Link.taken id).getD []

theorem takenBy_send {n n' : Network} {id : Nat} {m : Message} (h : n.send id m = .ok n')
    (k : Nat) : n'.takenBy k = if k = id then n.takenBy k ++ [m] else n.takenBy k := by
  obtain ⟨l,hl,rfl⟩ := send_eq_ok h
  simp only [takenBy, part?, link?_update]
  by_cases hk : id = k
  · subst hk
    simp [hl]
  · have hne : ¬ k = id := fun e => hk e.symm
    simp [hk, hne]

@[simp] theorem takenBy_dropSink (id k : Nat) : (n.dropSink id).takenBy k = n.takenBy k :=
  congrArg (Option.getD · []) (part?_dropSink id (fun _ => rfl) k)

@[simp] theorem takenBy_dropStream (id k : Nat) : (n.dropStream id).takenBy k = n.takenBy k :=
  congrArg (Option.getD · []) (part?_dropStream id (fun _ => rfl) k)

@[simp] theorem takenBy_drop (id k : Nat) : (n.drop id).takenBy k = n.takenBy k := by
  simp [drop]

theorem takenBy_receive {n n' : Network} {id : Nat} {r : Received}
    (h : n.receive id = some (r,n')) (k : Nat) : n'.takenBy k = n.takenBy k :=
  congrArg (Option.getD · []) (part?_receive h (fun _ _ => rfl) k)

theorem takenBy_onEvent (n : Network) (e : Event) (k : Nat) :
    (n.onEvent e).2.takenBy k = n.takenBy k :=
  congrArg (Option.getD · [])
    (part?_onEvent e (fun _ _ => rfl) (fun _ => rfl) (fun _ => rfl) k)

theorem takenBy_open (n : Network) (l : Link) (k : Nat) :
    takenBy k { n with links := n.links ++ [l] } =
      if k = n.links.length then l.taken else n.takenBy k := by
  simp only [takenBy, part?_open]
  split <;> rfl

/-- Nothing has been taken on a connection that has not been opened. -/
theorem takenBy_length (n : Network) : n.takenBy n.links.length = [] := by
  simp [takenBy, part?, link?]

/-! ## What has not been taken yet -/

def unread (id : Nat) (n : Network) : List Arrival := (n.part? Link.arrivals id).getD []

/-- Nothing arrives on a connection that has not been opened. -/
theorem unread_of_length_le {n : Network} {id : Nat} (h : n.links.length ≤ id) :
    n.unread id = [] := by
  rw [unread, part?, link?, List.getElem?_eq_none h]
  rfl

theorem unread_open (n : Network) (l : Link) (k : Nat) :
    unread k { n with links := n.links ++ [l] } =
      if k = n.links.length then l.arrivals else n.unread k := by
  simp only [unread, part?_open]
  split <;> rfl

section
variable {n n' : Network} {id k : Nat} {r : Received}

/-- Whoever receives takes what has arrived first. -/
theorem unread_receive (h : n.receive id = some (r,n')) :
    (∃ a : Arrival, r = a.received ∧ n.unread id = a :: n'.unread id) ∨ r = .ended ∧ n' = n := by
  rcases receive_cases h with ⟨l,a,rest,hl,ha,rfl,hr⟩ | hend
  · refine .inl ⟨a,hr,?_⟩
    simp [unread, part?, link?_update, hl, ha]
  · exact .inr hend

theorem unread_receive_of_ne (h : n.receive id = some (r,n')) (hk : k ≠ id) :
    n'.unread k = n.unread k := by
  rcases receive_cases h with ⟨l,a,rest,_,_,rfl,_⟩ | ⟨_,rfl⟩
  · have hne : ¬ id = k := fun he => hk he.symm
    simp [unread, part?, link?_update, hne]
  · rfl

theorem unread_of_receive_none (h : n.receive id = none) : n.unread id = [] := by
  unfold receive at h
  simp only [unread, part?]
  cases hl : n.link? id with
  | none => rfl
  | some l =>
    rw [hl] at h
    dsimp only at h
    split at h
    · cases h
    · cases h
    · rename_i ha
      exact ha

/-- Whoever has to wait has taken all that has arrived, and the far end has not hung up. -/
theorem of_receive_none (h : n.receive id = none) {l : Link} (hl : n.link? id = some l) :
    l.arrivals = [] ∧ l.hungUp = false := by
  unfold receive at h
  rw [hl] at h
  dsimp only at h
  split at h
  · cases h
  · cases h
  · rename_i ha
    exact ⟨ha,by simpa using h⟩

/-- What is sent to somebody who waits is received next. -/
theorem receive_offer (h : n.receive id = none) (hs : n.streamHeld id = true) (a : Arrival) :
    ∃ n', (n.onEvent (.offer id a)).2.receive id = some (a.received,n') := by
  cases hl : n.link? id with
  | none => simp [streamHeld, part?, hl] at hs
  | some l =>
    obtain ⟨ha,hh⟩ := of_receive_none h hl
    have hheld : l.streamHeld = true := by simpa [streamHeld, part?, hl] using hs
    have he : n.onEvent (.offer id a) =
        (.done,n.update id fun _ => { l with arrivals := l.arrivals ++ [a] }) := by
      simp [onEvent, hl, Link.offer, hheld, hh]
    rw [he]
    cases a <;> simp [receive, link?_update, hl, ha, Arrival.received]

/-- Somebody who waits learns next that the far end has hung up. -/
theorem receive_hangUp (h : n.receive id = none) (hl : id < n.links.length) :
    ∃ n', (n.onEvent (.hangUp id)).2.receive id = some (.ended,n') := by
  obtain ⟨l,hl'⟩ : ∃ l, n.link? id = some l := ⟨_,List.getElem?_eq_getElem hl⟩
  obtain ⟨ha,_⟩ := of_receive_none h hl'
  simp [onEvent, hl, receive, link?_update, hl', ha]

theorem unread_send {m : Message} (h : n.send id m = .ok n') (k : Nat) :
    n'.unread k = n.unread k :=
  congrArg (Option.getD · []) (part?_send h (fun _ _ => rfl) k)

@[simp] theorem unread_dropSink (n : Network) (id k : Nat) :
    (n.dropSink id).unread k = n.unread k :=
  congrArg (Option.getD · []) (part?_dropSink id (fun _ => rfl) k)

@[simp] theorem unread_dropStream (n : Network) (id k : Nat) :
    (n.dropStream id).unread k = n.unread k :=
  congrArg (Option.getD · []) (part?_dropStream id (fun _ => rfl) k)

def offers (id : Nat) (n : Network) : Event → List Arrival
  | .offer k a => if k = id ∧ (n.onEvent (.offer k a)).1 = .done then [a] else []
  | .mode _ | .hangUp _ | .stopReading _ => []

theorem unread_onEvent (n : Network) (e : Event) (id : Nat) :
    (n.onEvent e).2.unread id = n.unread id ++ n.offers id e := by
  have hsame {e : Event} (he : n.offers id e = [])
      (hu : (n.onEvent e).2.part? Link.arrivals id = n.part? Link.arrivals id) :
      (n.onEvent e).2.unread id = n.unread id ++ n.offers id e := by
    rw [he, List.append_nil, unread, hu, unread]
  cases e with
  | mode m => exact hsame rfl rfl
  | hangUp k =>
    refine hsame rfl ?_
    unfold onEvent
    dsimp only
    split
    · refine part?_update_of_eq (fun _ _ => ?_) id
      rfl
    · rfl
  | stopReading k =>
    refine hsame rfl ?_
    unfold onEvent
    dsimp only
    split
    · refine part?_update_of_eq (fun _ _ => ?_) id
      rfl
    · rfl
  | offer k a =>
    cases hl : n.link? k with
    | none =>
      have he : n.onEvent (.offer k a) = (.unknown,n) := by simp [onEvent, hl]
      refine hsame ?_ (by rw [he])
      simp [offers, he]
    | some l =>
      by_cases ho : (l.streamHeld && !l.hungUp) = true
      · have he : n.onEvent (.offer k a) =
            (.done,n.update k fun _ => { l with arrivals := l.arrivals ++ [a] }) := by
          simp only [onEvent, hl, Link.offer, if_pos ho]
        by_cases hk : k = id
        · subst hk
          simp [offers, he, unread, part?, link?_update, hl]
        · simp [offers, he, unread, part?, link?_update, hk]
      · have he : n.onEvent (.offer k a) = (.gone,n) := by
          simp only [onEvent, hl, Link.offer, if_neg ho]
        refine hsame ?_ (by rw [he])
        simp [offers, he]

theorem offers_of_length_le (h : n.links.length ≤ id) (e : Event) : n.offers id e = [] := by
  have hall := n.unread_onEvent e id
  rw [unread_of_length_le (by rwa [links_onEvent_length]), unread_of_length_le h] at hall
  exact hall.symm

/-- Nothing can be sent to those who have given up receiving. -/
theorem onEvent_offer_of_given_up (hs : n.streamHeld id = false) (hl : id < n.links.length)
    (a : Arrival) : n.onEvent (.offer id a) = (.gone,n) := by
  obtain ⟨l,hl⟩ : ∃ l, n.link? id = some l := ⟨_,List.getElem?_eq_getElem hl⟩
  have hheld : l.streamHeld = false := by simpa [streamHeld, part?, hl] using hs
  simp [onEvent, hl, Link.offer, hheld]

end

/-! ## Whether the far end reads -/

def reads (id : Nat) (n : Network) : Bool := (n.part? Link.reading id).getD true

section Reads
variable {n n' : Network} {id : Nat}

theorem reads_receive {r : Received} (h : n.receive id = some (r,n')) (k : Nat) :
    n'.reads k = n.reads k :=
  congrArg (Option.getD · true) (part?_receive h (fun _ _ => rfl) k)

theorem reads_send {m : Message} (h : n.send id m = .ok n') (k : Nat) :
    n'.reads k = n.reads k :=
  congrArg (Option.getD · true) (part?_send h (fun _ _ => rfl) k)

@[simp] theorem reads_drop (n : Network) (id k : Nat) : (n.drop id).reads k = n.reads k :=
  congrArg (Option.getD · true)
    ((part?_dropStream id (fun _ => rfl) k).trans (part?_dropSink id (fun _ => rfl) k))

theorem reads_open (n : Network) {l : Link} (hl : l.reading = true) (k : Nat) :
    reads k { n with links := n.links ++ [l] } = n.reads k := by
  simp only [reads, part?_open]
  split
  · rename_i hk
    simp [hk, hl, part?, link?]
  · rfl

/-- A far end that reads has read before. -/
theorem reads_of_onEvent {e : Event} {k : Nat} (h : (n.onEvent e).2.reads k = true) :
    n.reads k = true := by
  have hsame (hp : (n.onEvent e).2.part? Link.reading k = n.part? Link.reading k) :
      n.reads k = true := by
    rwa [reads, hp] at h
  cases e with
  | mode m => exact h
  | hangUp id =>
    refine hsame ?_
    unfold onEvent
    dsimp only
    split
    · refine part?_update_of_eq (fun _ _ => ?_) k
      rfl
    · rfl
  | offer id a =>
    refine hsame ?_
    rcases n.onEvent_offer id a with he | ⟨l,hl,he⟩ <;> rw [he]
    refine part?_update_of_eq (fun l' hl' => ?_) k
    obtain rfl : l = l' := Option.some.inj (hl.symm.trans hl')
    rfl
  | stopReading id =>
    unfold onEvent at h
    dsimp only at h
    split at h
    · simp only [reads, part?, link?_update] at h ⊢
      split at h
      · rename_i hk
        subst hk
        cases hl : n.link? id <;> simp [hl] at h ⊢
      · exact h
    · exact h

/-- A connection takes what is sent as long as its far end reads. -/
theorem not_reads_of_send {m : Message} {f : Fault} (h : n.send id m = .error f)
    (hid : id < n.links.length) : n.reads id = false := by
  obtain ⟨l,hl⟩ : ∃ l, n.link? id = some l := ⟨_,List.getElem?_eq_getElem hid⟩
  simp only [send, hl, Link.write] at h
  split at h
  · cases h
  · rename_i hr
    simpa [reads, part?, hl] using hr

end Reads

/-! ## How much has not been taken yet -/

theorem foldl_arrivals (ls : List Link) (k : Nat) :
    ls.foldl (fun k l => k + l.arrivals.length) k =
      k + ls.foldl (fun k l => k + l.arrivals.length) 0 := by
  induction ls generalizing k with
  | nil => rfl
  | cons l ls ih =>
    rw [List.foldl_cons, List.foldl_cons, ih, ih (0 + l.arrivals.length)]
    omega

theorem arrivalCount_update {n : Network} {id : Nat} {l : Link} (h : n.link? id = some l)
    (f : Link → Link) :
    (n.update id f).arrivalCount + l.arrivals.length =
      n.arrivalCount + (f l).arrivals.length := by
  simp only [arrivalCount, update]
  rw [link?] at h
  generalize n.links = ls at h
  induction ls generalizing id with
  | nil => cases h
  | cons k ls ih =>
    cases id with
    | zero =>
      obtain rfl : k = l := Option.some.inj h
      rw [List.modify_zero_cons, List.foldl_cons, List.foldl_cons, foldl_arrivals,
        foldl_arrivals ls (0 + _)]
      omega
    | succ id =>
      have hone := ih h
      rw [List.modify_succ_cons, List.foldl_cons, List.foldl_cons, foldl_arrivals,
        foldl_arrivals ls (0 + _)]
      omega

theorem arrivalCount_update_of_eq {id : Nat} {f : Link → Link}
    (hf : ∀ l, n.link? id = some l → (f l).arrivals.length = l.arrivals.length) :
    (n.update id f).arrivalCount = n.arrivalCount := by
  cases hl : n.link? id with
  | none =>
    have hle : n.links.length ≤ id := List.getElem?_eq_none_iff.mp hl
    have hu : n.update id f = n := by rw [update, List.modify_eq_self hle]
    rw [hu]
  | some l =>
    have hsum := arrivalCount_update hl f
    rw [hf l hl] at hsum
    exact Nat.add_right_cancel hsum

theorem arrivalCount_receive {n n' : Network} {id : Nat} {r : Received}
    (h : n.receive id = some (r,n')) :
    n'.arrivalCount + 1 = n.arrivalCount ∨ r = .ended ∧ n' = n := by
  refine (receive_cases h).imp_left ?_
  rintro ⟨l,a,rest,hl,ha,rfl,_⟩
  have hsum := arrivalCount_update hl ({ · with arrivals := rest })
  rw [ha, List.length_cons] at hsum
  dsimp only at hsum
  omega

theorem arrivalCount_send {n n' : Network} {id : Nat} {m : Message} (h : n.send id m = .ok n') :
    n'.arrivalCount = n.arrivalCount := by
  obtain ⟨l,hl,rfl⟩ := send_eq_ok h
  refine arrivalCount_update_of_eq n fun l' hl' => ?_
  obtain rfl : l = l' := Option.some.inj (hl.symm.trans hl')
  rfl

@[simp] theorem arrivalCount_dropSink (id : Nat) : (n.dropSink id).arrivalCount = n.arrivalCount :=
  n.arrivalCount_update_of_eq fun _ _ => rfl

@[simp] theorem arrivalCount_dropStream (id : Nat) :
    (n.dropStream id).arrivalCount = n.arrivalCount :=
  n.arrivalCount_update_of_eq fun _ _ => rfl

@[simp] theorem arrivalCount_drop (id : Nat) : (n.drop id).arrivalCount = n.arrivalCount := by
  rw [drop, arrivalCount_dropStream, arrivalCount_dropSink]

theorem arrivalCount_open (l : Link) (hl : l.arrivals = []) :
    arrivalCount { n with links := n.links ++ [l] } = n.arrivalCount := by
  simp [arrivalCount, hl]

end Majordomo.Network
