import Majordomo.Proofs.Worker.Departures
import Majordomo.Proofs.Worker.Flow

/-! # Replies mirror requests

Every request that a worker hears becomes one call of its handler, and every call has one outcome:
the reply is written to the connection on which the request was heard, or the fault is reported.
So the outcomes on a connection are, in order, what the handler makes of the requests on it, as
long as what the worker writes gets across.
-/
namespace Majordomo.Worker

def Settings.outcome? (n : Nat) (e : Envelope) (c : Settings) : Option (Except Fault Envelope) :=
  e.address?.map fun client => (c.handler n client e.body).result.map e.withBody

def Entry.request? : Entry → Option (Nat × Envelope)
  | .heard id frames => (Wire.requestOf? frames).map (id,·)
  | _ => none

def Entry.called? : Entry → Option (Frame × Message)
  | .called client body => some (client,body)
  | _ => none

def Output.reply? : Output → Option Envelope
  | .reply e => some e
  | _ => none

def Entry.reply? (id : Nat) (e : Entry) : Option Envelope := (e.wrote? id).bind (·.reply?)

def Entry.outcome? (id : Nat) : Entry → Option (Except Fault Envelope)
  | .reported f => some (.error f)
  | e => (e.reply? id).map .ok

def Entry.ofOutcome (id : Nat) : Except Fault Envelope → Entry
  | .ok e => .wrote id (.reply e)
  | .error f => .reported f

def Entry.served (now : Option Nat) : Entry → Option Nat
  | .opened id => some id
  | .left .. => none
  | _ => now

def outcomesIn (id : Nat) : Option Nat → List Entry → List (Except Fault Envelope)
  | _, [] => []
  | now, e :: es =>
    (if now = some id then (e.outcome? id).toList else []) ++ outcomesIn id (e.served now) es

theorem outcomesIn_append (id : Nat) (now : Option Nat) (es es' : List Entry) :
    outcomesIn id now (es ++ es') =
      outcomesIn id now es ++ outcomesIn id (es.foldl Entry.served now) es' := by
  induction es generalizing now with
  | nil => rfl
  | cons e es ih => simp only [List.cons_append, outcomesIn, List.foldl_cons, ih, List.append_assoc]

def Settings.dueOn (id n : Nat) (requests : List (Nat × Envelope)) (c : Settings) :
    List (Except Fault Envelope) :=
  (requests.zipIdx n).filterMap fun x => if x.1.1 = id then c.outcome? x.2 x.1.2 else none

def Stage.inHand (id : Nat) : Stage → List (Except Fault Envelope)
  | .handling k _ e result _ => if k = id then [result.map e.withBody] else []
  | _ => []

namespace State

def requests (s : State) : List (Nat × Envelope) := s.journal.filterMap (·.2.request?)

def outcomes (id : Nat) (s : State) : List (Except Fault Envelope) :=
  outcomesIn id none (s.journal.map Prod.snd)

def due (id : Nat) (s : State) : List (Except Fault Envelope) := s.settings.dueOn id 0 s.requests

def offered (id : Nat) (s : State) : List Act → List Arrival
  | [] => []
  | a :: acts => a.offers id s.network ++ offered id (s.apply a) acts

/-- The requests on one connection are what was heard there and is a request. -/
theorem requests_on (id : Nat) (s : State) :
    (s.requests.filter (·.1 == id)).map Prod.snd = (s.heard id).filterMap Wire.requestOf? := by
  simp only [requests, heard, List.filter_filterMap, List.map_filterMap, List.filterMap_filterMap]
  refine List.filterMap_congr fun x _ => ?_
  cases x.2 with
  | heard k frames =>
    by_cases hk : k = id <;>
      cases h : Wire.requestOf? frames <;> simp [Entry.request?, Entry.heard?, hk, h]
  | _ => rfl

end State

/-! ## One turn -/

/-- The entries, made while `now` is served, have nothing to do with requests, and neither has the
stage to which they lead. -/
structure Plain (now : Option Nat) (es : List Entry) (t : Stage) : Prop where
  served : es.foldl Entry.served now = t.link?
  requests : es.filterMap Entry.request? = []
  called : es.filterMap Entry.called? = []
  outcomes : ∀ id, outcomesIn id now es = []
  replies : ∀ id, es.filterMap (Entry.reply? id) = []
  inHand : ∀ id, t.inHand id = []

inductive Deals (s : State) : List Entry → Stage → Prop
  | plain {es : List Entry} {t : Stage} (hs : ∀ id, s.stage.inHand id = [])
      (h : Plain s.stage.link? es t) : Deals s es t
  /-- A request is heard and the handler is called. -/
  | call {id done : Nat} {v w : Vigil} {frames : Message} {client : Frame} {body : Message}
      (hs : s.stage = .serving id v)
      (hr : Wire.requestOf? frames = some ((Envelope.ofBody body).wrap client)) :
    Deals s [.heard id frames,.called client body]
      (.handling id w ((Envelope.ofBody body).wrap client)
        (s.settings.handler s.calls client body).result done)
  | settle {id done : Nat} {v : Vigil} {e : Envelope} {result : Except Fault Message}
      {es : List Entry} {t : Stage} (hs : s.stage = .handling id v e result done)
      (h : Plain (some id) es t) : Deals s (.ofOutcome id (result.map e.withBody) :: es) t
  /-- The outcome is lost with the connection. -/
  | lose {id done : Nat} {v : Vigil} {e : Envelope} {result : Except Fault Message}
      {es : List Entry} {t : Stage} (hs : s.stage = .handling id v e result done)
      (h : Plain (some id) es t) (hl : t.link? = none) : Deals s es t

section
variable {c : Settings} {s : State} {es : List Entry} {t : Stage} {now : Option Nat} {e : Entry}
  {f : Fault} {o : Output} {k id clock : Nat} {v : Vigil}

theorem plain_nil (hl : t.link? = now) (hi : ∀ id, t.inHand id = []) : Plain now [] t :=
  ⟨hl.symm,rfl,rfl,fun _ => rfl,fun _ => rfl,hi⟩

theorem Plain.cons (h : Plain (e.served now) es t) (hr : e.request? = none)
    (hc : e.called? = none) (ho : ∀ id, now = some id → e.outcome? id = none)
    (hw : ∀ id, e.reply? id = none) : Plain now (e :: es) t := by
  refine ⟨h.served,?_,?_,fun id => ?_,fun id => ?_,h.inHand⟩
  · rw [List.filterMap_cons_none hr, h.requests]
  · rw [List.filterMap_cons_none hc, h.called]
  · rw [outcomesIn, h.outcomes, List.append_nil]
    split
    · rename_i hn
      rw [ho id hn]
      rfl
    · rfl
  · rw [List.filterMap_cons_none (hw id), h.replies]

theorem reply?_wrote (ho : o.reply? = none) : (Entry.wrote k o).reply? id = none := by
  by_cases hk : k = id <;> simp [Entry.reply?, Entry.wrote?, hk, ho]

theorem Plain.wrote (h : Plain now es t) (ho : o.reply? = none) :
    Plain now (.wrote k o :: es) t := by
  refine Plain.cons (e := .wrote k o) h rfl rfl (fun id _ => ?_) fun id => reply?_wrote ho
  simp [Entry.outcome?, reply?_wrote ho]

theorem Plain.heard {frames : Message} (h : Plain now es t)
    (hr : Wire.requestOf? frames = none) : Plain now (.heard k frames :: es) t :=
  Plain.cons (e := .heard k frames) h (by simp [Entry.request?, hr]) rfl (fun _ _ => rfl)
    fun _ => rfl

theorem Plain.dialled (h : Plain now es t) : Plain now (.dialled :: es) t :=
  Plain.cons (e := .dialled) h rfl rfl (fun _ _ => rfl) fun _ => rfl

theorem Plain.opened (h : Plain (some k) es t) : Plain now (.opened k :: es) t :=
  Plain.cons (e := .opened k) h rfl rfl (fun _ _ => rfl) fun _ => rfl

theorem Plain.left {why : Exit} (h : Plain none es t) : Plain now (.left k why :: es) t :=
  Plain.cons (e := .left k why) h rfl rfl (fun _ _ => rfl) fun _ => rfl

/-- A report that has nothing to do with a request, as no connection is served. -/
theorem Plain.reported (h : Plain none es t) : Plain none (.reported f :: es) t :=
  Plain.cons (e := .reported f) h rfl rfl nofun fun _ => rfl

theorem RoundEnd.plain (h : RoundEnd c clock id v es t) : Plain (some id) es t := by
  cases h with
  | rest => exact plain_nil rfl fun _ => rfl
  | beat => exact .wrote (plain_nil rfl fun _ => rfl) rfl
  | sever => exact .left (.reported (plain_nil rfl fun _ => rfl))

theorem Turn.deals (h : Turn s es t) : Deals s es t := by
  have hserve {id : Nat} {v : Vigil} {es : List Entry} {t : Stage} (hs : s.stage = .serving id v)
      (h : Plain (some id) es t) : Deals s es t := by
    rw [show some id = s.stage.link? by rw [hs]; rfl] at h
    exact .plain (fun k => by rw [hs]; rfl) h
  have hapart {es : List Entry} {t : Stage} (hs : s.stage.link? = none) (h : Plain none es t) :
      Deals s es t := by
    refine .plain (fun k => ?_) (hs ▸ h)
    cases hstage : s.stage with
    | handling => rw [hstage] at hs; cases hs
    | _ => rfl
  have hdial {es : List Entry} {t : Stage} (hs : s.stage = .dialling) (h : Plain none es t) :
      Deals s es t := hapart (by rw [hs]; rfl) h
  cases h with
  | halt hs => exact hapart hs (plain_nil rfl fun _ => rfl)
  | connect hs => exact hdial hs (.dialled (.opened (.wrote (plain_nil rfl fun _ => rfl) rfl)))
  | refuse hs => exact hdial hs (.dialled (.reported (plain_nil rfl fun _ => rfl)))
  | hang hs => exact hdial hs (.dialled (plain_nil rfl fun _ => rfl))
  | wake hs => exact hapart (by rw [hs]; rfl) (plain_nil rfl fun _ => rfl)
  | stop hs => exact hserve hs (.wrote (.left (plain_nil rfl fun _ => rfl)) rfl)
  | vanish hs => exact hserve hs (.left (plain_nil rfl fun _ => rfl))
  | notify hs _ _ hr => exact hserve hs (hr.plain.wrote rfl)
  | hear hs _ _ hb hr =>
    refine hserve hs (hr.plain.heard ?_)
    rcases hb with hb | ⟨f,hb⟩ <;> simp [Wire.requestOf?, hb]
  | call hs _ _ hb => exact .call hs (by simp [Wire.requestOf?, hb])
  | dismiss hs _ _ hb =>
    exact hserve hs (.heard (.left (plain_nil rfl fun _ => rfl)) (by simp [Wire.requestOf?, hb]))
  | silence hs => exact hserve hs (.left (plain_nil rfl fun _ => rfl))
  | pass hs _ _ _ hr => exact hserve hs hr.plain
  | reply hs _ hr => exact .settle hs hr.plain
  | fail hs _ hr => exact .settle hs hr.plain
  | @sever id f hs =>
    cases hstage : s.stage with
    | handling k =>
      rw [hstage] at hs
      cases hs
      exact .lose hstage (.left (.reported (plain_nil rfl fun _ => rfl))) rfl
    | serving k v =>
      rw [hstage] at hs
      cases hs
      exact hserve hstage (.left (.reported (plain_nil rfl fun _ => rfl)))
    | _ => rw [hstage] at hs; cases hs

section
variable (k id : Nat) (r : Except Fault Envelope) (es : List Entry)

theorem served_ofOutcome (now : Option Nat) : (Entry.ofOutcome k r).served now = now := by
  cases r <;> rfl

theorem filterMap_request?_ofOutcome :
    (Entry.ofOutcome k r :: es).filterMap Entry.request? = es.filterMap Entry.request? := by
  cases r <;> rfl

theorem filterMap_called?_ofOutcome :
    (Entry.ofOutcome k r :: es).filterMap Entry.called? = es.filterMap Entry.called? := by
  cases r <;> rfl

theorem outcomesIn_ofOutcome :
    outcomesIn id (some k) (.ofOutcome k r :: es) =
      (if k = id then [r] else []) ++ outcomesIn id (some k) es := by
  rw [outcomesIn, served_ofOutcome]
  by_cases hk : k = id
  · subst hk
    cases r <;> simp [Entry.ofOutcome, Entry.outcome?, Entry.reply?, Entry.wrote?, Output.reply?]
  · simp [hk]

theorem filterMap_reply?_ofOutcome :
    (Entry.ofOutcome k r :: es).filterMap (Entry.reply? id) =
      (if k = id then [r] else []).filterMap Except.toOption ++ es.filterMap (Entry.reply? id) := by
  rw [List.filterMap_cons]
  by_cases hk : k = id <;> cases r <;>
    simp [Entry.ofOutcome, Entry.reply?, Entry.wrote?, Output.reply?, Except.toOption, hk]

end

/-- The handler is called for each request, with its address and its body. -/
theorem Deals.called (h : Deals s es t) :
    (es.filterMap Entry.called?).map (fun x => (Envelope.ofBody x.2).wrap x.1) =
      (es.filterMap Entry.request?).map Prod.snd := by
  cases h with
  | plain _ h | lose _ h => rw [h.called, h.requests]; rfl
  | call _ hr => simp [List.filterMap_cons, Entry.called?, Entry.request?, hr]
  | settle _ h =>
    rw [filterMap_called?_ofOutcome, filterMap_request?_ofOutcome, h.called, h.requests]
    rfl

theorem Deals.served (h : Deals s es t) : es.foldl Entry.served s.stage.link? = t.link? := by
  cases h with
  | plain _ h => exact h.served
  | call hs => rw [hs]; rfl
  | settle hs h =>
    rw [hs, List.foldl_cons, served_ofOutcome]
    exact h.served
  | lose hs h => rw [hs]; exact h.served

/-- What is written are the outcomes that are replies. -/
theorem Deals.replies (h : Deals s es t) (id : Nat) :
    es.filterMap (Entry.reply? id) =
      (outcomesIn id s.stage.link? es).filterMap Except.toOption := by
  cases h with
  | plain _ h => rw [h.replies, h.outcomes]; rfl
  | call hs => 
    rw [hs]
    simp [List.filterMap_cons, outcomesIn, Entry.reply?, Entry.wrote?, Entry.outcome?]
  | @settle k _ _ _ _ _ _ hs h =>
    have hl : s.stage.link? = some k := by rw [hs]; rfl
    rw [hl, filterMap_reply?_ofOutcome, outcomesIn_ofOutcome, h.replies, h.outcomes,
      List.append_nil, List.append_nil]
  | @lose k _ _ _ _ _ _ hs h =>
    have hl : s.stage.link? = some k := by rw [hs]; rfl
    rw [hl, h.replies, h.outcomes]
    rfl

/-- As long as no outcome is lost, the outcomes and what is in hand are what is due. -/
theorem Deals.outcomes (h : Deals s es t) {id : Nat}
    (hk : ∀ v e result done, s.stage = .handling id v e result done → t.link? ≠ none) :
    outcomesIn id s.stage.link? es ++ t.inHand id =
      s.stage.inHand id ++ s.settings.dueOn id s.calls (es.filterMap Entry.request?) := by
  cases h with
  | plain hs h => rw [hs, h.outcomes, h.inHand, h.requests]; rfl
  | @call k _ _ _ frames client body hs hr =>
    have hl : s.stage.link? = some k := by rw [hs]; rfl
    have hone : [Entry.heard k frames,.called client body].filterMap Entry.request? =
        [(k,(Envelope.ofBody body).wrap client)] := by
      simp [List.filterMap_cons, Entry.request?, hr]
    have hnone : outcomesIn id (some k) [.heard k frames,.called client body] = [] := by
      simp [outcomesIn, Entry.reply?, Entry.wrote?, Entry.outcome?]
    rw [hl, hone, hnone, hs]
    by_cases he : k = id <;>
      simp [Stage.inHand, Settings.dueOn, Settings.outcome?, he, Envelope.address?, Envelope.wrap,
        Envelope.ofBody]
  | @settle k _ _ _ _ _ _ hs h =>
    have hl : s.stage.link? = some k := by rw [hs]; rfl
    rw [hl, outcomesIn_ofOutcome, filterMap_request?_ofOutcome, h.outcomes, h.inHand, h.requests,
      List.append_nil, List.append_nil, hs]
    exact (List.append_nil _).symm
  | @lose k _ _ _ _ _ _ hs h hl =>
    have hne : k ≠ id := by
      rintro rfl
      exact hk _ _ _ _ hs hl
    have hl : s.stage.link? = some k := by rw [hs]; rfl
    rw [hl, h.outcomes, h.inHand, h.requests, hs]
    simp [Stage.inHand, hne, Settings.dueOn]

/-- What is heard is heard on the connection that is served, and DISCONNECT ends it. -/
theorem Turn.heard (h : Turn s es t) (id : Nat) :
    es.filterMap (Entry.heard? id) = [] ∨ ∃ frames, es.filterMap (Entry.heard? id) = [frames] ∧
      s.stage.link? = some id ∧
      (Wire.BrokerCommand.ofFrames frames = .ok .disconnect → t.link? = none) := by
  have hround {k : Nat} {v : Vigil} {es : List Entry} {t : Stage}
      (hr : RoundEnd s.settings s.clock k v es t) : es.filterMap (Entry.heard? id) = [] := by
    cases hr <;> rfl
  have hone {k : Nat} {v : Vigil} {frames : Message} {es : List Entry} (hs : s.stage = .serving k v)
      (he : es.filterMap (Entry.heard? id) = [])
      (hd : Wire.BrokerCommand.ofFrames frames = .ok .disconnect → t.link? = none) :
      (Entry.heard k frames :: es).filterMap (Entry.heard? id) = [] ∨
        ∃ f, (Entry.heard k frames :: es).filterMap (Entry.heard? id) = [f] ∧
          s.stage.link? = some id ∧
          (Wire.BrokerCommand.ofFrames f = .ok .disconnect → t.link? = none) := by
    by_cases hk : k = id
    · refine .inr ⟨frames,?_,?_,hd⟩
      · rw [List.filterMap_cons, he]
        simp [Entry.heard?, hk]
      · rw [hs, ← hk]
        rfl
    · refine .inl ?_
      rw [List.filterMap_cons, he]
      simp [Entry.heard?, hk]
  cases h with
  | halt | connect | refuse | hang | wake | stop | vanish | silence | sever => exact .inl rfl
  | notify _ _ _ hr | reply _ _ hr | fail _ _ hr | pass _ _ _ _ hr => exact .inl (hround hr :)
  | hear hs _ _ hb hr =>
    refine hone hs (hround hr) fun hd => ?_
    rcases hb with hb | ⟨f,hb⟩ <;> cases hd.symm.trans hb
  | call hs _ _ hb => exact hone hs rfl fun hd => by cases hd.symm.trans hb
  | dismiss hs => exact hone hs rfl fun _ => rfl

end

namespace State
variable {s s' : State} {es : List Entry} {id : Nat}

def replies (id : Nat) (s : State) : List Envelope := (s.written id).filterMap Output.reply?

theorem Adds.replies (h : Adds es s s') (id : Nat) :
    s'.replies id = s.replies id ++ es.filterMap (Entry.reply? id) := by
  rw [State.replies, h.written, List.filterMap_append, List.filterMap_filterMap]
  rfl

theorem Adds.requests (h : Adds es s s') :
    s'.requests = s.requests ++ es.filterMap Entry.request? := by
  rw [State.requests, h.journal, List.filterMap_append, List.filterMap_map]
  rfl

theorem Adds.callLog (h : Adds es s s') : s'.callLog = s.callLog ++ es.filterMap Entry.called? := by
  rw [State.callLog, h.journal, List.filterMap_append, List.filterMap_map, State.callLog]
  congr 1
  refine List.filterMap_congr fun e _ => ?_
  cases e <;> rfl

theorem Adds.outcomes (h : Adds es s s')
    (hs : (s.journal.map Prod.snd).foldl Entry.served none = s.stage.link?) (id : Nat) :
    s'.outcomes id = s.outcomes id ++ outcomesIn id s.stage.link? es := by
  rw [State.outcomes, h.journal, List.map_append, outcomesIn_append, hs, List.map_map]
  simp [State.outcomes, Function.comp_def]

theorem Adds.heard (h : Adds es s s') (id : Nat) :
    s'.heard id = s.heard id ++ es.filterMap (Entry.heard? id) := by
  rw [State.heard, h.journal, List.filterMap_append, List.filterMap_map]
  rfl

/-! ## Runs -/

structure Booked (s : State) : Prop where
  calls : s.calls = s.callLog.length
  callLog : s.callLog.map (fun x => (Envelope.ofBody x.2).wrap x.1) = s.requests.map Prod.snd
  served : (s.journal.map Prod.snd).foldl Entry.served none = s.stage.link?

theorem counted_apply (a : Act) (h : s.calls = s.callLog.length) :
    (s.apply a).calls = (s.apply a).callLog.length := by
  cases a with
  | move =>
    simp only [apply]
    cases hm : s.move with
    | none => exact h
    | some s' =>
      rcases move_cases hm with hk | ⟨_,_,_,hc⟩
      · exact hk.continues.counted h
      · exact hc.continues.counted h
  | persist =>
    simp only [apply, persist]
    split
    · obtain ⟨hp,hr⟩ := dial_passes 0 s
      exact (hp.keeps' hr).continues.counted h
    · split <;> exact h
    · exact h
  | resume =>
    simp only [apply, resume]
    split <;> exact h
  | notice n =>
    simp only [apply, notice]
    split
    · exact h
    · split <;> exact h
  | tick | askStop | shutdown | network => exact h

theorem Booked.length_requests (h : Booked s) : s.requests.length = s.calls := by
  have hl := congrArg List.length h.callLog
  rw [List.length_map, List.length_map] at hl
  rw [h.calls, hl]

theorem Booked.apply (h : Booked s) (a : Act) : Booked (s.apply a) := by
  have hc := counted_apply a h.calls
  have he := effect_apply s a
  generalize s.apply a = s' at hc he
  cases he with
  | turn ha ht =>
    refine ⟨hc,?_,?_⟩
    · rw [ha.callLog, ha.requests, List.map_append, List.map_append, h.callLog, ht.deals.called]
    · rw [ha.journal, List.map_append, List.foldl_append, h.served, ← ht.deals.served, List.map_map]
      simp [Function.comp_def]
  | resume hs => exact ⟨hc,h.callLog,h.served.trans (by rw [hs]; rfl)⟩
  | pass hb =>
    refine ⟨hc,?_,?_⟩
    · rw [State.callLog, State.requests, hb.journal]
      exact h.callLog
    · rw [hb.journal, hb.stage, h.served]

theorem booked_run (c : Settings) (m : Mode) (monitor : Monitor) (acts : List Act) :
    Booked ((start c { mode := m } monitor).run acts) :=
  run_invariant (fun _ a h => h.apply a) ⟨rfl,rfl,rfl⟩ acts

/-- The outcomes on the connection, with what the handler has in hand for it, are those that are
due, and what was written are those that are replies. -/
structure Mirrors (id : Nat) (s : State) : Prop where
  outcomes : s.outcomes id ++ s.stage.inHand id = s.due id
  replies : s.replies id = (s.outcomes id).filterMap Except.toOption

theorem due_append {c : Settings} {id : Nat} {requests requests' : List (Nat × Envelope)} :
    c.dueOn id 0 (requests ++ requests') =
      c.dueOn id 0 requests ++ c.dueOn id requests.length requests' := by
  rw [Settings.dueOn, List.zipIdx_append, List.filterMap_append, Nat.zero_add]
  rfl

theorem Mirrors.turn (h : Mirrors id s) (hb : Booked s) (ha : Adds es s s')
    (ht : Turn s es s'.stage)
    (hk : ∀ v e result done, s.stage = .handling id v e result done → s'.stage.link? ≠ none) :
    Mirrors id s' := by
  have hd := ht.deals
  constructor
  · rw [ha.outcomes hb.served, List.append_assoc, hd.outcomes hk, ← List.append_assoc, h.outcomes,
      State.due, State.due, ha.settings, ha.requests, due_append, hb.length_requests]
  · rw [ha.replies, ha.outcomes hb.served, List.filterMap_append, h.replies, hd.replies]

/-- As long as what is written gets across, the handler's answer is made known and the connection is
kept. -/
theorem stays_of_handling {a : Act} {v : Vigil} {e : Envelope} {result : Except Fault Message}
    {done : Nat} (hs : s.stage = .handling id v e result done)
    (hid : id < s.network.links.length) (hr : s.network.reads id = true) :
    (s.apply a).stage.link? = some id := by
  have hlink : s.stage.link? = some id := by rw [hs]; rfl
  have hlt (k : Nat) (hk : s.stage.link? = some k) : k < s.network.links.length := by
    cases hlink.symm.trans hk
    exact hid
  rcases fate_or_aloof a hlt with ⟨k,hk,_,hf⟩ | h
  · cases hlink.symm.trans hk
    cases hf with
    | stays hl => exact hl
    | leaves _ hc =>
      cases hc with
      | unheard hn => cases hr.symm.trans hn
      | stop hv | dismissal hv | silence hv | failure hv | ending hv => cases hs.symm.trans hv
  · rcases h.link with hl | ⟨hn,_⟩
    · rw [hl, hlink]
    · cases hlink.symm.trans hn

theorem Mirrors.apply (h : Mirrors id s) (hb : Booked s) {st : Standing} (ht : Told st s) (a : Act)
    (hr : s.network.reads id = true) : Mirrors id (s.apply a) := by
  have hk v e result done (hs : s.stage = .handling id v e result done) :
      (s.apply a).stage.link? ≠ none := by
    rw [stays_of_handling hs (ht.lt (by rw [hs]; rfl)) hr]
    simp
  have he := effect_apply s a
  generalize s.apply a = s' at hk he
  cases he with
  | turn hadds hturn => exact h.turn hb hadds hturn hk
  | resume hs =>
    have ho := h.outcomes
    rw [hs] at ho
    exact ⟨ho,h.replies⟩
  | pass hp =>
    refine ⟨?_,?_⟩
    · rw [State.outcomes, State.due, State.requests, hp.journal, hp.stage, hp.settings]
      exact h.outcomes
    · rw [State.replies, State.written, State.outcomes, hp.journal]
      exact h.replies

theorem heard_apply (a : Act) (id : Nat) :
    (s.apply a).heard id = s.heard id ∨ ∃ frames, (s.apply a).heard id = s.heard id ++ [frames] ∧
      s.stage.link? = some id ∧
      (Wire.BrokerCommand.ofFrames frames = .ok .disconnect → (s.apply a).stage.link? = none) := by
  have he := effect_apply s a
  generalize s.apply a = s' at he
  cases he with
  | turn ha ht =>
    rw [ha.heard]
    rcases ht.heard id with h | ⟨frames,h,hl⟩ <;> rw [h]
    · exact .inl (List.append_nil _)
    · exact .inr ⟨frames,rfl,hl⟩
  | resume => exact .inl rfl
  | pass hb =>
    rw [State.heard, hb.journal]
    exact .inl rfl

structure Reception (id : Nat) (sent : List Arrival) (s : State) : Prop where
  heard : (s.heard id).map .message <+: sent
  served : s.stage.link? = some id → sent = (s.heard id).map .message ++ s.network.unread id
  unopened : s.network.links.length ≤ id → sent = [] ∧ s.heard id = []
  /-- Nothing is heard after DISCONNECT. -/
  last : ∀ frames ∈ (s.heard id).dropLast, Wire.BrokerCommand.ofFrames frames ≠ .ok .disconnect
  undismissed : s.stage.link? = some id → ∀ frames ∈ s.heard id,
    Wire.BrokerCommand.ofFrames frames ≠ .ok .disconnect

theorem reception_start (c : Settings) (m : Mode) (monitor : Monitor) (id : Nat) :
    Reception id [] (start c { mode := m } monitor) where
  heard := List.nil_prefix
  served := nofun
  unopened _ := ⟨rfl,rfl⟩
  last := nofun
  undismissed := nofun

/-- With what is received on the connection that is served. -/
theorem Reception.fate {sent : List Arrival} (h : Reception id sent s)
    (hl : s.stage.link? = some id) (hf : Fate id s s') :
    (s'.heard id).map .message <+: sent ∧
      (s'.stage.link? = some id → sent = (s'.heard id).map .message ++ s'.network.unread id) := by
  have hsent := h.served hl
  cases hf with
  | stays _ hk =>
    obtain ⟨taken,hu,hh⟩ := hk.heard
    have hall : sent = (s'.heard id).map .message ++ s'.network.unread id := by
      rw [hsent, hu, hh, List.map_append, List.append_assoc]
    exact ⟨⟨_,hall.symm⟩,fun _ => hall⟩
  | leaves hn _ _ _ hh =>
    obtain ⟨taken,hu,hh⟩ := hh
    refine ⟨?_,fun hs => ?_⟩
    · rw [hsent, hh, List.map_append]
      exact (List.prefix_append_right_inj _).mpr hu
    · cases hn.symm.trans hs

/-- A connection that is served was served before, or it is new. -/
theorem link?_apply (hlt : ∀ id, s.stage.link? = some id → id < s.network.links.length) {a : Act}
    (hl : (s.apply a).stage.link? = some id) :
    s.stage.link? = some id ∨ s.stage.link? = none ∧ s.network.links.length = id := by
  rcases fate_or_aloof a hlt with ⟨k,hk,_,hf⟩ | ho
  · cases hf with
    | stays hs =>
      cases hs.symm.trans hl
      exact .inl hk
    | leaves hn => cases hn.symm.trans hl
  · rcases ho.link with he | ⟨hn,he⟩
    · exact .inl (he ▸ hl)
    · cases he.symm.trans hl
      exact .inr ⟨hn,rfl⟩

theorem Reception.aloof {sent : List Arrival} {a : Act} (h : Reception id sent s)
    (ho : Aloof a s s') :
    (s'.heard id).map .message <+: sent ++ a.offers id s.network ∧
      (s'.stage.link? = some id → sent ++ a.offers id s.network =
        (s'.heard id).map .message ++ s'.network.unread id) := by
  rw [ho.heard, ho.unread]
  refine ⟨h.heard.trans (List.prefix_append ..),fun hl => ?_⟩
  rw [← List.append_assoc]
  congr 1
  rcases ho.link with he | ⟨_,he⟩
  · exact h.served (he ▸ hl)
  · cases he.symm.trans hl
    obtain ⟨hsent,hheard⟩ := h.unopened (Nat.le_refl _)
    rw [hsent, hheard, Network.unread_of_length_le (Nat.le_refl _)]
    rfl

theorem Reception.apply {sent : List Arrival} (h : Reception id sent s)
    (hlt : ∀ id, s.stage.link? = some id → id < s.network.links.length) (a : Act) :
    Reception id (sent ++ a.offers id s.network) (s.apply a) := by
  have hopened : s.network.links.length ≤ (s.apply a).network.links.length :=
    (effect_apply s a).opened_le
  have hheard := heard_apply (s := s) a id
  obtain ⟨harrived,hserved⟩ :
      ((s.apply a).heard id).map .message <+: sent ++ a.offers id s.network ∧
      ((s.apply a).stage.link? = some id → sent ++ a.offers id s.network =
        ((s.apply a).heard id).map .message ++ (s.apply a).network.unread id) := by
    rcases fate_or_aloof a hlt with ⟨k,hk,rfl,hf⟩ | ho
    · rw [show Act.offers id s.network .move = [] from rfl, List.append_nil]
      by_cases he : k = id
      · exact h.fate (he ▸ hk) (he ▸ hf)
      · have hne : s.stage.link? ≠ some id := by simp [hk, he]
        obtain hsame | ⟨_,_,hl,_⟩ := hheard
        · rw [hsame]
          refine ⟨h.heard,fun hl => ?_⟩
          rcases link?_apply hlt hl with hl | ⟨hn,_⟩
          · exact absurd hl hne
          · cases hk.symm.trans hn
        · exact absurd hl hne
    · exact h.aloof ho
  refine ⟨harrived,hserved,fun hle => ?_,?_,fun hl frames hmem => ?_⟩
  · have hle := Nat.le_trans hopened hle
    obtain ⟨hsent,hnone⟩ := h.unopened hle
    refine ⟨?_,?_⟩
    · rw [hsent, Act.offers_of_length_le hle a]
      rfl
    · rcases hheard with he | ⟨_,_,hl,_⟩
      · rw [he, hnone]
      · exact absurd (hlt id hl) (Nat.not_lt_of_le hle)
  · rcases hheard with he | ⟨f,he,hl,_⟩ <;> rw [he]
    · exact h.last
    · rw [List.dropLast_concat]
      exact h.undismissed hl
  · have hbefore : ∀ frames ∈ s.heard id, Wire.BrokerCommand.ofFrames frames ≠ .ok .disconnect := by
      rcases link?_apply hlt hl with hl | ⟨_,he⟩
      · exact h.undismissed hl
      · rw [(h.unopened (Nat.le_of_eq he)).2]
        nofun
    obtain hsame | ⟨f,hf,_,hd⟩ := hheard
    · exact hbefore frames (hsame ▸ hmem)
    · rw [hf] at hmem
      rcases List.mem_append.mp hmem with hmem | hmem
      · exact hbefore frames hmem
      · obtain rfl := List.mem_singleton.mp hmem
        intro hdisconnect
        cases (hd hdisconnect).symm.trans hl

theorem reception_run {sent : List Arrival} (h : Reception id sent s) {st : Standing}
    (hs : Told st s) (acts : List Act) : Reception id (sent ++ s.offered id acts) (s.run acts) := by
  induction acts generalizing s sent st with
  | nil => rwa [offered, List.append_nil]
  | cons a acts ih =>
    obtain ⟨st',ht⟩ := (effect_apply s a).told hs
    rw [offered, ← List.append_assoc]
    exact ih (h.apply (fun _ => hs.lt) a) ht

/-- A worker that waits has heard all that has come and is done with it, or the handler has not
answered yet. -/
theorem unread_of_move_none (hm : s.move = none) (hl : s.stage.link? = some id) :
    s.network.unread id = [] ∧ s.stage.inHand id = [] ∨
      ∃ v e result done, s.stage = .handling id v e result done ∧ s.clock < done := by
  cases hs : s.stage with
  | serving k v =>
    rw [hs] at hl
    cases hl
    refine .inl ⟨?_,rfl⟩
    simp only [move, hs, serve] at hm
    split at hm
    · cases hm
    · split at hm
      · cases hm
      · split at hm
        · cases hm
        · cases hm
        · cases hm
        · rename_i hr
          exact Network.unread_of_receive_none hr
  | handling k v e result done =>
    rw [hs] at hl
    cases hl
    refine .inr ⟨v,e,result,done,rfl,?_⟩
    simp only [move, hs] at hm
    split at hm
    · cases hm
    · rename_i hd
      exact Nat.lt_of_not_le hd
  | _ =>
    rw [hs] at hl
    cases hl

theorem fault_of_cause {f : Fault} (h : Cause s id (.fault f)) :
    f = .interrupted ∨ ∃ reason, f = .transport reason := by
  cases h with
  | failure => exact .inr ⟨_,rfl⟩
  | ending | unheard => exact .inl rfl

/-- Connections are given up for faults of the transport only. -/
theorem departures_run (c : Settings) (m : Mode) (monitor : Monitor) (acts : List Act) {f : Fault}
    (h : (id,.fault f) ∈ ((start c { mode := m } monitor).run acts).departures) :
    f = .interrupted ∨ ∃ reason, f = .transport reason := by
  revert h
  refine (run_invariant (P := fun s => (∃ st, Told st s) ∧ ((id,.fault f) ∈ s.departures →
    f = .interrupted ∨ ∃ reason, f = .transport reason)) (fun s a h => ?_)
    ⟨told_run c m monitor [],nofun⟩ acts).2
  obtain ⟨⟨st,hs⟩,hf⟩ := h
  refine ⟨(effect_apply s a).told hs,fun hmem => ?_⟩
  rcases leaves_for_cause a (fun _ => hs.lt) with he | ⟨k,why,_,hc,he⟩ <;> rw [he] at hmem
  · exact hf hmem
  · rcases List.mem_append.mp hmem with hmem | hmem
    · exact hf hmem
    · cases List.mem_singleton.mp hmem
      exact fault_of_cause hc

theorem mirrors_run (c : Settings) (m : Mode) (monitor : Monitor) (acts : List Act)
    (hr : ((start c { mode := m } monitor).run acts).network.reads id = true) :
    Mirrors id ((start c { mode := m } monitor).run acts) := by
  revert hr
  refine (run_invariant (P := fun s => (∃ st, Told st s) ∧ Booked s ∧
    (s.network.reads id = true → Mirrors id s)) (fun s a h => ?_)
    ⟨told_run c m monitor [],booked_run c m monitor [],fun _ => ⟨rfl,rfl⟩⟩ acts).2.2
  obtain ⟨⟨st,hs⟩,hb,hm⟩ := h
  refine ⟨(effect_apply s a).told hs,hb.apply a,fun hr => ?_⟩
  have hbefore := reads_of_apply (fun _ => hs.lt) hr
  exact (hm hbefore).apply hb hs a hbefore

/-- On a connection whose far end reads, the replies of a worker mirror the requests. What the far
end sends is heard in order up to DISCONNECT, all of it if the worker has come to rest; for each
request the handler is called once, and as it answers the reply is written to the connection or
the fault is reported, once and in this order. Nothing else that the worker hears is answered or
makes it leave the connection, and it never comes upon a request without an address. -/
theorem replies_mirror_requests (c : Settings) (m : Mode) (monitor : Monitor) (acts : List Act)
    (id : Nat) (hr : ((start c { mode := m } monitor).run acts).network.reads id = true) :
    let sent := (start c { mode := m } monitor).offered id acts
    let s := (start c { mode := m } monitor).run acts
    ((s.heard id).map .message <+: sent ∧
      (s.stage.link? = some id → sent = (s.heard id).map .message ++ s.network.unread id) ∧
      (∀ frames ∈ (s.heard id).dropLast,
        Wire.BrokerCommand.ofFrames frames ≠ .ok .disconnect)) ∧
    (s.callLog.map (fun x => (Envelope.ofBody x.2).wrap x.1) = s.requests.map Prod.snd ∧
      (s.requests.filter (·.1 == id)).map Prod.snd = (s.heard id).filterMap Wire.requestOf?) ∧
    (s.outcomes id ++ s.stage.inHand id = s.due id ∧
      s.replies id = (s.outcomes id).filterMap Except.toOption ∧
      s.network.takenBy id = (s.written id).map (·.frames c.service)) ∧
    (s.move = none → s.stage.link? = some id →
      s.network.unread id = [] ∧ s.stage.inHand id = [] ∨
        ∃ v e result done, s.stage = .handling id v e result done ∧ s.clock < done) ∧
    (∀ a, s.stage.link? = some id → (s.apply a).stage.link? = some id ∨
      ∃ why, Cause s id why ∧ (s.apply a).departures = s.departures ++ [(id,why)]) ∧
    ∀ k, (k,.fault (.violation .requestWithoutClient)) ∉ s.departures := by
  intro sent s
  obtain ⟨st,hs⟩ := told_run c m monitor acts
  obtain ⟨_,hstart⟩ := told_run c m monitor []
  have hreception : Reception id sent s :=
    reception_run (reception_start c m monitor id) hstart acts
  have hmirrors : Mirrors id s := mirrors_run c m monitor acts hr
  have hfaithful := faithful_run c m monitor acts id
  rw [settings_run] at hfaithful
  refine ⟨⟨hreception.heard,hreception.served,hreception.last⟩,
    ⟨(booked_run c m monitor acts).callLog,requests_on id s⟩,
    ⟨hmirrors.outcomes,hmirrors.replies,hfaithful⟩,unread_of_move_none,
    fun a => stays_or_leaves a fun _ => hs.lt,fun k hk => ?_⟩
  rcases departures_run c m monitor acts hk with hf | ⟨_,hf⟩ <;> cases hf

/-- Between two messages that call for no answer a request is answered. -/
theorem replies_mirror_requests_echo :
    let request : Envelope := ⟨[.ofText "client"],[.ofText "ping"]⟩
    let acts : List Act :=
      [.move, .network (.offer 0 (.message Wire.heartbeat)),
        .network (.offer 0 (.message (Wire.request request))),
        .network (.offer 0 (.message [.ofText "ping"])), .move, .move, .move, .move]
    let s := (start .sample {} {}).run acts
    s.network.reads 0 = true ∧ (s.heard 0).length = 3 ∧ s.replies 0 = [request] := by
  intro request acts s
  have hreads : ((start .sample {} {}).run acts).network.reads 0 = true := by decide +kernel
  obtain ⟨_,_,⟨hout,hreplies,_⟩,_⟩ := replies_mirror_requests .sample .accept {} acts 0 hreads
  have hhand : s.stage.inHand 0 = [] := by decide +kernel
  have hdue : s.due 0 = [.ok request] := by decide +kernel
  have houtcomes : s.outcomes 0 = [.ok request] := by
    rw [← hdue, ← hout, hhand, List.append_nil]
  refine ⟨hreads,by decide +kernel,?_⟩
  rw [hreplies, houtcomes]
  rfl

end State
end Majordomo.Worker
