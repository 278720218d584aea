import Majordomo.Proofs.Client.Standing

/-! # What becomes of the messages that are sent

A message that is accepted goes to the end of the queue. It is taken from the front of it into the
sender's hand, and from there it is written to one connection, where the far end has it, or its
write fails.
-/
namespace Majordomo.Client

def Outbound.frames (o : Outbound) : Message :=
  Wire.clientMessage (.ofText o.target) [.ofText o.payload]

namespace Entry

def accepted? : Entry → Option Outbound
  | .accepted o => some o
  | _ => none

def taken? : Entry → Option Outbound
  | .taken o => some o
  | _ => none

/-- The message that was to be written, and the connection that has it unless it is lost. -/
def fate? : Entry → Option (Option Nat × Outbound)
  | .written id o => some (some id,o)
  | .lost o => some (none,o)
  | _ => none

def isLost : Entry → Bool
  | .lost _ => true
  | _ => false

def isDeparture : Entry → Bool
  | .taken _ | .written .. | .lost _ => true
  | _ => false

def isPost : Entry → Bool
  | .accepted _ | .taken _ | .written .. | .lost _ => true
  | _ => false

theorem not_isDeparture_of_not_isPost (x : Entry) (h : (!x.isPost) = true) :
    (!x.isDeparture) = true := by
  cases x with
  | taken | written | lost => cases h
  | _ => rfl

theorem not_isPost_of_isNotice (x : Entry) (h : x.isNotice = true) : (!x.isPost) = true := by
  cases x with
  | accepted | taken | written | lost => cases h
  | _ => rfl

end Entry

theorem not_isPost_deliveries (payload : String) (s : State) :
    ∀ x ∈ s.deliveries payload, (!x.isPost) = true := by
  unfold State.deliveries
  cases s.listener <;> simp [Entry.isPost]

/-- What is taken on a connection stays the same, or begins with the greeting. -/
def Greeted (greeting : Message) (n n' : Network) : Prop :=
  ∀ k, n'.takenBy k = n.takenBy k ∨ n.takenBy k = [] ∧ n'.takenBy k = [greeting]

theorem Greeted.of_eq {greeting : Message} {n n' : Network}
    (h : ∀ k, n'.takenBy k = n.takenBy k) : Greeted greeting n n' := fun k => .inl (h k)

theorem Greeted.trans {greeting : Message} {n n' n'' : Network} (h : Greeted greeting n n')
    (h' : Greeted greeting n' n'') : Greeted greeting n n'' := by
  intro k
  rcases h' k with hk' | ⟨hnone,hk'⟩
  · exact (h k).imp hk'.trans fun ⟨hn,hk⟩ => ⟨hn,hk'.trans hk⟩
  · rcases h k with hk | ⟨_,hk⟩
    · exact .inr ⟨hk.symm.trans hnone,hk'⟩
    · cases hk.symm.trans hnone

namespace State
variable {s t u : State} {hand : Option Outbound} {new new' : List Outbound}

/-! ## Between accepting and writing -/

def acceptances (s : State) : List Outbound := s.journal.filterMap Entry.accepted?

def taken (s : State) : List Outbound := s.journal.filterMap Entry.taken?

/-- What became of the messages that were taken, one by one. -/
def fates (s : State) : List (Option Nat × Outbound) := s.journal.filterMap Entry.fate?

def writtenTo (id : Nat) (s : State) : List Outbound :=
  (s.fates.filter fun fate => fate.1 = some id).map Prod.snd

/-- The messages `new` are accepted and go to the end of the queue, and none leaves it. -/
structure Gains (new : List Outbound) (s t : State) : Prop where
  journal : Grows (!·.isDeparture) s.journal t.journal
  acceptances : t.acceptances = s.acceptances ++ new
  queue : t.queue = s.queue ++ new
  network : Greeted s.settings.greeting s.network t.network
  settings : t.settings = s.settings

/-- The messages on their way are left alone. -/
theorem gains_of_grows (hj : Grows (!·.isPost) s.journal t.journal) (hq : t.queue = s.queue)
    (hn : Greeted s.settings.greeting s.network t.network) (hs : t.settings = s.settings) :
    Gains [] s t := by
  refine ⟨hj.mono Entry.not_isDeparture_of_not_isPost,?_,by rw [hq, List.append_nil],hn,hs⟩
  rw [List.append_nil]
  refine hj.filterMap_eq fun x hx => ?_
  cases x with
  | accepted => cases hx
  | _ => rfl

theorem gains_of_eq (hj : t.journal = s.journal) (hq : t.queue = s.queue)
    (hn : t.network = s.network) (hs : t.settings = s.settings) : Gains [] s t :=
  gains_of_grows (hj ▸ .refl _) hq (.of_eq fun _ => by rw [hn]) hs

theorem Gains.trans (h : Gains new s t) (h' : Gains new' t u) : Gains (new ++ new') s u where
  journal := h.journal.trans h'.journal
  acceptances := by rw [h'.acceptances, h.acceptances, List.append_assoc]
  queue := by rw [h'.queue, h.queue, List.append_assoc]
  network := h.network.trans (h.settings ▸ h'.network)
  settings := h'.settings.trans h.settings

theorem gains_push (o : Outbound) (s : State) : Gains [o] s (s.push o) where
  journal := .snoc (.refl _) rfl
  acceptances := by simp [State.acceptances, push, log, Entry.accepted?]
  queue := rfl
  network := .of_eq fun _ => rfl
  settings := rfl

theorem gains_of_body (hj : Grows Entry.isNotice s.journal t.journal) (hb : t.body = s.body) :
    Gains [] s t := by
  have hn : t.network = s.network := (congrArg network hb :)
  exact gains_of_grows (hj.mono Entry.not_isPost_of_isNotice) (congrArg queue hb :)
    (.of_eq fun k => by rw [hn]) (congrArg State.settings hb :)

theorem gains_onReleased (failed : Bool) (s : State) : Gains [] s (s.onReleased failed) := by
  have hreleased : Gains [] s s.released :=
    gains_of_grows (.snoc (.refl _) rfl) rfl (.of_eq fun _ => rfl) rfl
  exact hreleased.trans (gains_of_body (grows_onReleased failed s) (body_onReleased failed s))

theorem gains_requestSend (s : State) : Gains [] s s.requestSend :=
  gains_of_body (grows_requestSend s) (body_requestSend s)

theorem gains_close (s : State) : Gains [] s s.close := by
  refine gains_of_grows ((grows_close s).mono Entry.not_isPost_of_isNotice) ?_
    (.of_eq fun k => by rw [network_close]) (settings_close s)
  rcases s.body_close with h | h <;> exact (congrArg queue h :)

theorem gains_execute (s : State) : Gains [] s s.execute := by
  unfold execute
  split <;> exact gains_of_eq rfl rfl rfl rfl

theorem gains_settleEpisode (e : Episode) (s : State) : Gains [] s (s.settleEpisode e) := by
  unfold settleEpisode
  split
  · exact gains_onReleased e.connectFailed s
  · exact gains_of_eq rfl rfl rfl rfl

end State

/-- What a move within an episode does with the messages on their way. -/
theorem Turn.post {s t : State} {e e' : Episode} (h : Turn s e t e') :
    State.Gains [] s t ∨
    ∃ o, s.queue = o :: t.queue ∧ ((∃ id, t.journal = s.journal ++ [.taken o] ++ [.written id o]) ∨
      t.journal = s.journal ++ [.taken o] ++ [.lost o]) := by
  have hdrop (ids : List Nat) (k : Nat) :
      (ids.foldl (fun n id => n.drop id) s.network).takenBy k = s.network.takenBy k :=
    Network.foldl_keeps (fun n id => Network.takenBy_drop n id k) ids s.network
  have hsink (n : Network) (ids : List Nat) (k : Nat) :
      (ids.foldl (fun n id => n.dropSink id) n).takenBy k = n.takenBy k :=
    Network.foldl_keeps (fun n id => Network.takenBy_dropSink n id k) ids n
  have hgains (hj : Grows (!·.isPost) s.journal t.journal) (hq : t.queue = s.queue)
      (hn : ∀ k, t.network.takenBy k = s.network.takenBy k) : State.Gains [] s t :=
    State.gains_of_grows hj hq (.of_eq hn) (congrArg State.settings h.frame :)
  cases h with
  | write hs hx hq hn | trip hs hx hq hn => exact .inr ⟨_,hq,.inl ⟨_,rfl⟩⟩
  | lose hs hx hq hn => exact .inr ⟨_,hq,.inr rfl⟩
  | abandon | excuse | accept | expire => exact .inl (hgains (.refl _) rfl fun _ => rfl)
  | leave => exact .inl (hgains (.refl _) rfl (hdrop _))
  | halt => exact .inl (hgains (.refl _) rfl (hsink _ _))
  | overlook | desist =>
    exact .inl (hgains (.refl _) rfl (Network.takenBy_dropStream s.network _))
  | finish _ _ hn =>
    refine .inl (hgains (.refl _) rfl fun k => ?_)
    rw [Network.takenBy_dropStream, Network.takenBy_receive hn]
  | skip _ _ hn => exact .inl (hgains (.refl _) rfl (Network.takenBy_receive hn))
  | hang => exact .inl (hgains (.snoc (.refl _) rfl) rfl fun _ => rfl)
  | refuse => exact .inl (hgains (.snoc (.snoc (.refl _) rfl) rfl) rfl fun _ => rfl)
  | timeOut =>
    exact .inl (hgains (.snoc (.refl _) rfl) rfl (Network.takenBy_drop s.network _))
  | reject _ _ hr =>
    refine .inl (hgains (.snoc (.refl _) rfl) rfl fun k => ?_)
    exact (Network.takenBy_drop _ _ k).trans (Network.takenBy_receive hr k)
  | refuseOwn _ _ hr =>
    refine .inl (hgains (.snoc (.snoc (.refl _) rfl) rfl) rfl fun k => ?_)
    exact (Network.takenBy_drop _ _ k).trans (Network.takenBy_receive hr k)
  | hangOwn _ _ hr =>
    exact .inl (hgains (.snoc (.refl _) rfl) rfl (Network.takenBy_receive hr))
  | establish _ _ _ hr =>
    exact .inl (hgains (.snoc (.append (.refl _) (not_isPost_deliveries _ s)) rfl) rfl
      (Network.takenBy_receive hr))
  | count _ _ hn =>
    refine .inl (hgains (.append (.snoc (.refl _) rfl) ?_) rfl (Network.takenBy_receive hn))
    split
    · exact nofun
    · exact not_isPost_deliveries _ s
  | greet =>
    refine .inl (State.gains_of_grows (.snoc (.refl _) rfl) rfl (fun k => ?_) rfl)
    rw [Network.takenBy_open]
    split
    · rename_i hk
      exact .inr ⟨hk ▸ s.network.takenBy_length,rfl⟩
    · exact .inl rfl
  | @establishOwn _ _ _ _ n _ _ _ _ _ hr =>
    refine .inl (hgains (.snoc (.append (.snoc (.refl _) rfl) (not_isPost_deliveries _ s)) rfl) rfl
      fun k => ?_)
    rw [Network.takenBy_dropStream, Network.takenBy_open, ← Network.takenBy_receive hr]
    split
    · rename_i hk
      exact hk ▸ n.takenBy_length.symm
    · rfl

namespace State
variable {s t : State} {hand : Option Outbound} {new : List Outbound}

/-- The messages are all where they should be, one of them perhaps in hand. -/
structure Balanced (hand : Option Outbound) (s : State) : Prop where
  accepted : s.acceptances = s.taken ++ s.queue
  disposed : s.fates.map Prod.snd ++ hand.toList = s.taken
  arrived : ∀ id, ∃ greeting,
    (greeting = [] ∨ greeting = [s.settings.greeting]) ∧
      s.network.takenBy id = greeting ++ (s.writtenTo id).map Outbound.frames

theorem Balanced.gains (h : s.Balanced hand) (hg : Gains new s t) : t.Balanced hand := by
  have htaken : t.taken = s.taken := hg.journal.filterMap_eq fun x hx => by
    cases x with
    | taken => cases hx
    | _ => rfl
  have hfates : t.fates = s.fates := hg.journal.filterMap_eq fun x hx => by
    cases x with
    | written | lost => cases hx
    | _ => rfl
  refine ⟨?_,?_,fun id => ?_⟩
  · rw [hg.acceptances, htaken, hg.queue, h.accepted, List.append_assoc]
  · rw [hfates, htaken, h.disposed]
  · have hw : t.writtenTo id = s.writtenTo id := by simp only [writtenTo, hfates]
    obtain ⟨greeting,hg',hto⟩ := h.arrived id
    rw [hw, hg.settings]
    rcases hg.network id with hn | ⟨hnone,hn⟩
    · exact ⟨greeting,hg',hn.trans hto⟩
    · -- nothing was written before the greeting
      rw [hnone] at hto
      have hempty := List.append_eq_nil_iff.mp hto.symm
      exact ⟨_,.inr rfl,by rw [hn, hempty.2, List.append_nil]⟩

/-- The sender takes a message into its hand. -/
theorem Balanced.take (h : s.Balanced none) {o : Outbound} (hq : s.queue = o :: t.queue)
    (hj : t.journal = s.journal ++ [.taken o]) (hs : t.settings = s.settings)
    (hn : t.network = s.network) : t.Balanced (some o) := by
  have hacceptances : t.acceptances = s.acceptances := by
    simp [acceptances, hj, Entry.accepted?, List.filterMap_cons]
  have htakens : t.taken = s.taken ++ [o] := by simp [taken, hj, Entry.taken?]
  have hfates : t.fates = s.fates := by simp [fates, hj, Entry.fate?, List.filterMap_cons]
  have hdisposed : s.fates.map Prod.snd = s.taken := by simpa using h.disposed
  refine ⟨?_,by rw [hfates, hdisposed, htakens]; rfl,fun id => ?_⟩
  · rw [hacceptances, h.accepted, htakens, hq, List.append_assoc]
    rfl
  · have hw : t.writtenTo id = s.writtenTo id := by simp only [writtenTo, hfates]
    rw [hw, hs, hn]
    exact h.arrived id

/-- The message in hand is written or lost. -/
theorem Balanced.put {o : Outbound} (h : s.Balanced (some o)) {x : Entry} {fate : Option Nat}
    (hq : t.queue = s.queue) (hj : t.journal = s.journal ++ [x]) (hx : x.fate? = some (fate,o))
    (hs : t.settings = s.settings) (hn : ∀ k, t.network.takenBy k =
      s.network.takenBy k ++ if fate = some k then [o.frames] else []) : t.Balanced none := by
  obtain ⟨haccepted,htaken⟩ : x.accepted? = none ∧ x.taken? = none := by
    cases x with
    | written | lost => exact ⟨rfl,rfl⟩
    | _ => cases hx
  have hacceptances : t.acceptances = s.acceptances := by
    simp [acceptances, hj, haccepted]
  have htakens : t.taken = s.taken := by simp [State.taken, hj, htaken]
  have hfates : t.fates = s.fates ++ [(fate,o)] := by simp [fates, hj, hx]
  refine ⟨by rw [hacceptances, h.accepted, htakens, hq],?_,fun k => ?_⟩
  · rw [hfates, htakens, ← h.disposed]
    simp
  · obtain ⟨greeting,hg,hto⟩ := h.arrived k
    refine ⟨greeting,hs ▸ hg,?_⟩
    rw [hn, hto, List.append_assoc]
    by_cases hk : fate = some k <;> simp [writtenTo, hfates, hk]

end State

/-! ## What is lost of an episode -/

def Unopened (l : List Entry) : Prop := ∀ address, .event (.connected address) ∉ l

/-- Of what was noted since a session was last established no message was lost. -/
def Unharmed (l : List Entry) : Prop :=
  ∀ part, part <:+ l → Unopened part → part.countP Entry.isLost = 0

/-- Of no session that was established more than one message was lost. -/
def Spared (l : List Entry) : Prop :=
  ∀ part, part <:+: l → Unopened part → part.countP Entry.isLost ≤ 1

section
variable {l l' : List Entry} {x : Entry}

theorem Unopened.of_append {m : List Entry} (h : Unopened (l ++ m)) : Unopened l :=
  fun address hm => h address (List.mem_append_left _ hm)

theorem Unharmed.snoc (h : Unharmed l) (hx : x.isLost = false) : Unharmed (l ++ [x]) := by
  intro part hp hd
  rcases List.suffix_concat_iff.mp hp with rfl | ⟨part,rfl,hpart⟩
  · rfl
  · rw [List.countP_append, h part hpart hd.of_append, List.countP_singleton, hx]
    rfl

theorem unharmed_connected (l : List Entry) (address : String) :
    Unharmed (l ++ [.event (.connected address)]) := by
  intro part hp hd
  rcases List.suffix_concat_iff.mp hp with rfl | ⟨part,rfl,_⟩
  · rfl
  · exact absurd (List.mem_append_right _ (List.mem_singleton_self _)) (hd address)

theorem Spared.snoc (h : Spared l) (hx : x.isLost = true → Unharmed l) : Spared (l ++ [x]) := by
  intro part hp hd
  rcases List.infix_concat_iff.mp hp with hp | hp
  · rcases List.suffix_concat_iff.mp hp with rfl | ⟨part,rfl,hpart⟩
    · exact Nat.zero_le _
    · rw [List.countP_append, List.countP_singleton]
      split
      · rename_i hl
        exact Nat.le_of_eq (congrArg (· + 1) (hx hl part hpart hd.of_append))
      · exact h part hpart.isInfix hd.of_append
  · exact h part hp hd

theorem isLost_of_not_isDeparture {x : Entry} (h : (!x.isDeparture) = true) :
    x.isLost = false := by
  cases x with
  | lost => cases h
  | _ => rfl

theorem Unharmed.grows (h : Unharmed l) (hg : Grows (!·.isDeparture) l l') : Unharmed l' :=
  Grows.rec_snoc hg h fun _ _ hx ih => ih.snoc (isLost_of_not_isDeparture hx)

theorem Spared.grows (h : Spared l) (hg : Grows (!·.isDeparture) l l') : Spared l' :=
  Grows.rec_snoc hg h fun _ _ hx ih => ih.snoc fun hl => by
    cases (isLost_of_not_isDeparture hx).symm.trans hl

theorem spared_nil : Spared [] := by
  intro part hp _
  obtain rfl := List.infix_nil.mp hp
  exact Nat.zero_le _

end
end Majordomo.Client
