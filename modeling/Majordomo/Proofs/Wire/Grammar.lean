import Majordomo.Proofs.Wire.Agreement

/-! # The grammar of the wire

What the broker accepts is written down rule by rule, without its reader: each rule gives a
shape of frames and what they mean. The reader accepts these frames, each with its meaning, and
no others; what is routed further on is encoded again to the very frames it came in.
-/
namespace Majordomo

namespace Envelope

theorem toFrames_of_ofFrames? {n : Nat} {frames : Message} {e : Envelope}
    (h : ofFrames? n frames = some e) : frames = e.toFrames := by
  induction n generalizing frames e with
  | zero =>
    cases h
    exact rfl
  | succ n ih =>
    obtain _ | ⟨address,_ | ⟨⟨bytes⟩,rest⟩⟩ := frames
    · cases h
    · cases h
    · simp only [ofFrames?] at h
      split at h
      · rename_i hd
        obtain rfl : bytes = [] := by simpa [Frame.isEmpty] using hd
        obtain ⟨f,hf,rfl⟩ := Option.map_eq_some_iff.mp h
        rw [toFrames_wrap, ← ih hf]
        exact rfl
      · cases h

theorem ofFrames?_one_iff {frames : Message} {e : Envelope} :
    ofFrames? 1 frames = some e ↔ frames = e.toFrames ∧ e.depth = 1 := by
  constructor
  · intro h
    exact ⟨toFrames_of_ofFrames? h,depth_of_ofFrames? h⟩
  · rintro ⟨rfl,he⟩
    exact Wire.ofFrames?_one he

end Envelope

namespace Wire

theorem Command.eq_frame {f : Frame} {c : Command} (h : ofFrame? f = some c) : f = c.frame := by
  obtain ⟨bytes⟩ := f
  simp only [ofFrame?] at h
  split at h <;> cases h <;> rename_i hb <;> cases hb <;> exact rfl

/-! ## The rules -/

inductive Reads : Message → Inbound → Prop
  /-- A client names a service and sends at least one frame more. -/
  | client (service frame : Frame) (body : Message) :
      Reads (.empty :: .ofText clientRole :: service :: frame :: body)
        (.client service (frame :: body))
  /-- What follows the service does not count. -/
  | ready (service : Frame) (rest : Message) :
      Reads (workerMessage .ready (service :: rest)) (.worker (.ready service.toText))
  | reply (address : Frame) (body : Message) :
      Reads (workerMessage .reply (address :: .empty :: body)) (.worker (.reply ⟨[address],body⟩))
  | shutdown (address : Frame) {body : Message} (h : isMarked body = false) :
      Reads (workerMessage .shutdown (address :: .empty :: body))
        (.worker (.shutdown ⟨[address],body⟩ none))
  /-- The marked frame is taken off from behind before the rest is read. -/
  | shutdownNamed (address : Frame) (body : Message) {last : Frame}
      (h : last.startsWith serviceMarker = true) :
      Reads (workerMessage .shutdown (address :: .empty :: (body ++ [last])))
        (.worker (.shutdown ⟨[address],body⟩ (some (markedName last))))
  | heartbeat (rest : Message) : Reads (workerMessage .heartbeat rest) (.worker .heartbeat)
  | disconnect (rest : Message) : Reads (workerMessage .disconnect rest) (.worker .disconnect)
  /-- Any other command, a request among them. -/
  | unknown {command : Frame} (rest : Message)
      (h : ∀ c : Command, command = c.frame → c = .request) :
      Reads (.empty :: .ofText workerRole :: command :: rest) (.worker (.unknown command))

/-! ## The reader accepts what the rules give -/

theorem Inbound.ofFrames_client (rest : Message) :
    Inbound.ofFrames (.empty :: .ofText clientRole :: rest) =
      match rest with
      | service :: frame :: body => .ok (.client service (frame :: body))
      | _ => .error .shortClientMessage := by
  simp only [Inbound.ofFrames, show Frame.isEmpty .empty = true from rfl, Bool.not_true,
    Bool.false_eq_true, if_false, if_true]
  obtain _ | ⟨service,_ | ⟨frame,body⟩⟩ := rest <;> exact rfl

theorem Inbound.ofFrames_worker (rest : Message) :
    Inbound.ofFrames (.empty :: .ofText workerRole :: rest) =
      match rest with
      | [] => .error .missingWorkerCommand
      | command :: rest => (WorkerCommand.ofFrames command rest).map .worker := by
  simp only [Inbound.ofFrames, show Frame.isEmpty .empty = true from rfl, Bool.not_true,
    Bool.false_eq_true, if_false, if_true, clientRole_ne_workerRole.symm]
  split <;> exact rfl

theorem WorkerCommand.ofFrames_unknown {command : Frame}
    (h : ∀ c : Command, command = c.frame → c = .request) (rest : Message) :
    WorkerCommand.ofFrames command rest = .ok (.unknown command) := by
  cases hc : Command.ofFrame? command with
  | none => simp only [WorkerCommand.ofFrames, hc]
  | some c =>
    obtain rfl := h c (Command.eq_frame hc)
    simp only [WorkerCommand.ofFrames, hc]

theorem Reads.ofFrames {frames : Message} {i : Inbound} (h : Reads frames i) :
    Inbound.ofFrames frames = .ok i := by
  cases h with
  | client service frame body => rw [Inbound.ofFrames_client]
  | ready service rest =>
    rw [Inbound.ofFrames_workerMessage]
    exact rfl
  | reply address body => exact Inbound.ofFrames_reply (e := ⟨[address],body⟩) rfl
  | @shutdown address body h =>
    have hs := Inbound.ofFrames_shutdown_none (e := ⟨[address],body⟩) rfl h
    rwa [Wire.shutdown, Option.map_none, Option.toList_none, List.append_nil] at hs
  | shutdownNamed address body h =>
    exact Inbound.ofFrames_shutdown_concat (e := ⟨[address],body⟩) rfl h
  | heartbeat rest =>
    rw [Inbound.ofFrames_workerMessage]
    exact rfl
  | disconnect rest =>
    rw [Inbound.ofFrames_workerMessage]
    exact rfl
  | unknown rest h =>
    rw [Inbound.ofFrames_worker]
    dsimp only
    rw [WorkerCommand.ofFrames_unknown h]
    exact rfl

/-! ## The rules give what the reader accepts -/

/-- What is accepted begins with an empty frame and one of the two roles. -/
theorem Inbound.role_of_ofFrames {frames : Message} {i : Inbound}
    (h : Inbound.ofFrames frames = .ok i) :
    ∃ rest, frames = .empty :: .ofText clientRole :: rest ∨
      frames = .empty :: .ofText workerRole :: rest := by
  obtain _ | ⟨⟨bytes⟩,_ | ⟨role,rest⟩⟩ := frames
  · cases h
  · simp only [ofFrames] at h
    split at h <;> cases h
  · simp only [ofFrames] at h
    split at h
    · cases h
    · rename_i hd
      obtain rfl : bytes = [] := by simpa [Frame.isEmpty] using hd
      split at h
      · rename_i hr
        exact ⟨rest,Or.inl (hr ▸ rfl)⟩
      · split at h
        · rename_i hr
          exact ⟨rest,Or.inr (hr ▸ rfl)⟩
        · cases h

theorem Reads.of_reply {frames : Message} {e : Envelope}
    (h : Envelope.ofFrames? 1 frames = some e) :
    Reads (workerMessage .reply frames) (.worker (.reply e)) := by
  obtain ⟨rfl,he⟩ := Envelope.ofFrames?_one_iff.mp h
  obtain ⟨address,he⟩ := Envelope.eq_wrap_of_depth_eq_one he
  rw [he]
  exact .reply address e.body

theorem Reads.of_shutdown {rest : Message} {e : Envelope}
    (h : Envelope.ofFrames? 1 (splitMarker rest).1 = some e) :
    Reads (workerMessage .shutdown rest) (.worker (.shutdown e (splitMarker rest).2)) := by
  obtain ⟨hf,he⟩ := Envelope.ofFrames?_one_iff.mp h
  obtain ⟨address,ha⟩ := Envelope.eq_wrap_of_depth_eq_one he
  cases hm : isMarked rest with
  | false =>
    rw [splitMarker_of_not_isMarked hm] at hf ⊢
    dsimp only at hf ⊢
    rw [hf, isMarked_toFrames he] at hm
    rw [hf, ha]
    exact .shutdown address hm
  | true =>
    obtain ⟨last,hlast,hl⟩ := isMarked_iff.mp hm
    obtain ⟨init,rfl⟩ := List.getLast?_eq_some_iff.mp hlast
    rw [splitMarker_concat hl] at hf ⊢
    dsimp only at hf ⊢
    rw [hf, ha]
    exact .shutdownNamed address e.body hl

theorem Reads.of_worker {command : Frame} {rest : Message} {c : WorkerCommand}
    (h : WorkerCommand.ofFrames command rest = .ok c) :
    Reads (.empty :: .ofText workerRole :: command :: rest) (.worker c) := by
  cases hc : Command.ofFrame? command with
  | none =>
    simp only [WorkerCommand.ofFrames, hc] at h
    cases h
    refine .unknown rest fun c hf => ?_
    rw [hf, Command.ofFrame?_frame] at hc
    cases hc
  | some d =>
    simp only [WorkerCommand.ofFrames, hc] at h
    obtain rfl := Command.eq_frame hc
    cases d with
    | ready =>
      cases rest with
      | nil => cases h
      | cons service rest =>
        cases h
        exact .ready service rest
    | request =>
      cases h
      refine .unknown rest fun c hf => ?_
      rw [hf, Command.ofFrame?_frame] at hc
      exact Option.some.inj hc
    | reply =>
      cases he : Envelope.ofFrames? 1 rest <;> rw [he] at h <;> cases h
      exact .of_reply he
    | heartbeat =>
      cases h
      exact .heartbeat rest
    | disconnect =>
      cases h
      exact .disconnect rest
    | shutdown =>
      cases he : Envelope.ofFrames? 1 (splitMarker rest).1 <;> rw [he] at h <;> cases h
      exact .of_shutdown he

theorem Inbound.ofFrames_iff {frames : Message} {i : Inbound} :
    Inbound.ofFrames frames = .ok i ↔ Reads frames i := by
  constructor
  · intro h
    obtain ⟨rest,rfl | rfl⟩ := role_of_ofFrames h
    · rw [ofFrames_client] at h
      split at h
      · cases h
        exact .client ..
      · cases h
    · rw [ofFrames_worker] at h
      split at h
      · cases h
      · cases hc : WorkerCommand.ofFrames _ _ <;> rw [hc] at h <;> cases h
        exact .of_worker hc
  · exact Reads.ofFrames

/-! ## Nothing is lost -/

theorem Reads.reply_iff {frames : Message} {e : Envelope} :
    Reads frames (.worker (.reply e)) ↔ frames = Wire.reply e ∧ e.depth = 1 := by
  constructor
  · rintro ⟨⟩
    exact ⟨rfl,rfl⟩
  · rintro ⟨rfl,he⟩
    exact Inbound.ofFrames_iff.mp (Inbound.ofFrames_reply he)

theorem Reads.client_iff {frames : Message} {service : Frame} {body : Message} :
    Reads frames (.client service body) ↔ frames = clientMessage service body ∧ body ≠ [] := by
  constructor
  · rintro ⟨⟩
    exact ⟨rfl,List.cons_ne_nil _ _⟩
  · rintro ⟨rfl,hb⟩
    exact Inbound.ofFrames_iff.mp (Inbound.ofFrames_clientMessage service hb)

theorem afterRole_eq_ok {role : String} {wrong : Violation} {frames rest : Message}
    (h : afterRole role wrong frames = .ok rest) : frames = .empty :: .ofText role :: rest := by
  obtain _ | ⟨⟨bytes⟩,_ | ⟨header,tail⟩⟩ := frames
  · cases h
  · cases h
  · simp only [afterRole] at h
    split at h
    · rename_i hd
      obtain ⟨hb,rfl⟩ := hd
      obtain rfl : bytes = [] := by simpa [Frame.isEmpty] using hb
      cases h
      exact rfl
    · cases h

theorem BrokerCommand.request_iff {frames : Message} {e : Envelope} :
    BrokerCommand.ofFrames frames = .ok (.request e) ↔ frames = Wire.request e ∧ e.depth = 1 := by
  constructor
  · intro h
    simp only [BrokerCommand.ofFrames] at h
    split at h
    · cases h
    · cases h
    · rename_i command rest hr
      obtain rfl := afterRole_eq_ok hr
      split at h <;> try cases h
      rename_i hc
      obtain rfl := Command.eq_frame hc
      split at h <;> cases h
      rename_i hf
      obtain ⟨rfl,he⟩ := Envelope.ofFrames?_one_iff.mp hf
      exact ⟨rfl,he⟩
  · rintro ⟨rfl,he⟩
    exact BrokerCommand.ofFrames_request he

/-- The broker accepts the frames that a rule gives and no others, and whatever is routed on,
in either direction, came in as the frames that it is encoded to again. -/
theorem readers_accept_grammar (frames : Message) :
    (∀ i, Inbound.ofFrames frames = .ok i ↔ Reads frames i) ∧
    ((∃ v, Inbound.ofFrames frames = .error v) ↔ ¬∃ i, Reads frames i) ∧
    (∀ service body, Inbound.ofFrames frames = .ok (.client service body) ↔
      frames = clientMessage service body ∧ body ≠ []) ∧
    (∀ e, Inbound.ofFrames frames = .ok (.worker (.reply e)) ↔
      frames = reply e ∧ e.depth = 1) ∧
    ∀ e, BrokerCommand.ofFrames frames = .ok (.request e) ↔ frames = request e ∧ e.depth = 1 := by
  refine ⟨fun i => Inbound.ofFrames_iff,?_,fun service body => ?_,fun e => ?_,
    fun e => BrokerCommand.request_iff⟩
  · simp only [← Inbound.ofFrames_iff]
    cases Inbound.ofFrames frames <;> simp
  · rw [Inbound.ofFrames_iff, Reads.client_iff]
  · rw [Inbound.ofFrames_iff, Reads.reply_iff]

end Wire
end Majordomo
