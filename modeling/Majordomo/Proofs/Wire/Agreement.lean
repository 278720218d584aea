import Majordomo.Proofs.Text.Utf8
import Majordomo.Proofs.Wire.Reading

/-! # Each party reads what the others build

The broker, the workers and the clients each have a reader of their own, and a message is
read by the party it is meant for as what it was built from, whatever its frames hold. The
only place where content is taken for a sign is the end of a shutdown notice.
-/
namespace Majordomo
namespace Wire

/-! ## The service at the end of a shutdown notice -/

def isMarked (frames : Message) : Bool := frames.getLast?.any (Frame.startsWith serviceMarker)

def markedName (last : Frame) : String :=
  String.ofList (last.toText.toList.drop serviceMarker.length)

theorem isMarked_append (frames : Message) {body : Message} (h : body ≠ []) :
    isMarked (frames ++ body) = isMarked body := by
  rw [isMarked, isMarked, List.getLast?_append_of_ne_nil frames h]

theorem isMarked_iff {frames : Message} :
    isMarked frames = true ↔
      ∃ last, frames.getLast? = some last ∧ last.startsWith serviceMarker = true := by
  rw [isMarked, Option.any_eq_true]

theorem splitMarker_of_not_isMarked {frames : Message} (h : isMarked frames = false) :
    splitMarker frames = (frames,none) := by
  cases hl : frames.getLast? with
  | none => simp only [splitMarker, hl]
  | some last =>
    have hm : last.startsWith serviceMarker = false := by simpa [isMarked, hl] using h
    simp only [splitMarker, hl, hm, Bool.false_eq_true, if_false]

theorem splitMarker_concat {last : Frame} (h : last.startsWith serviceMarker = true)
    (frames : Message) : splitMarker (frames ++ [last]) = (frames,some (markedName last)) := by
  simp [splitMarker, h, markedName]

theorem markedName_ofText (s : String) : markedName (.ofText (serviceMarker ++ s)) = s := by
  rw [markedName, Frame.toText_ofText, String.toList_append, ← String.length_toList,
    List.drop_left, String.ofList_toList]

/-- The delimiter after an address is not taken for a marker. -/
theorem isMarked_toFrames {e : Envelope} (h : e.depth = 1) :
    isMarked e.toFrames = isMarked e.body := by
  obtain ⟨address,he⟩ := Envelope.eq_wrap_of_depth_eq_one h
  have hf : e.toFrames = [address,.empty] ++ e.body := by
    rw [he]
    exact rfl
  by_cases hb : e.body = []
  · have hempty : Frame.startsWith serviceMarker .empty = false := by decide
    simp [isMarked, hf, hb, hempty]
  · rw [hf, isMarked_append _ hb]

/-! ## What the broker reads -/

theorem WorkerCommand.ofFrames_shutdown {rest frames : Message} {name : Option String}
    {e : Envelope} (h : splitMarker rest = (frames,name))
    (he : Envelope.ofFrames? 1 frames = some e) :
    WorkerCommand.ofFrames Command.shutdown.frame rest = .ok (.shutdown e name) := by
  simp only [WorkerCommand.ofFrames, Command.ofFrame?_frame, h, he]

section Depth
variable {e : Envelope} (he : e.depth = 1)
include he

theorem ofFrames?_one : Envelope.ofFrames? 1 e.toFrames = some e := by
  have h := e.ofFrames?_toFrames
  rwa [he] at h

theorem Inbound.ofFrames_reply : Inbound.ofFrames (reply e) = .ok (.worker (.reply e)) := by
  rw [reply, Inbound.ofFrames_workerMessage]
  simp only [WorkerCommand.ofFrames, Command.ofFrame?_frame, ofFrames?_one he, Except.map]

theorem Inbound.ofFrames_shutdown_concat {last : Frame}
    (h : last.startsWith serviceMarker = true) :
    Inbound.ofFrames (workerMessage .shutdown (e.toFrames ++ [last])) =
      .ok (.worker (.shutdown e (some (markedName last)))) := by
  rw [Inbound.ofFrames_workerMessage,
    WorkerCommand.ofFrames_shutdown (splitMarker_concat h _) (ofFrames?_one he)]
  exact rfl

theorem Inbound.ofFrames_shutdown_some (s : String) :
    Inbound.ofFrames (shutdown e (some s)) = .ok (.worker (.shutdown e (some s))) := by
  have h := ofFrames_shutdown_concat he (Frame.startsWith_ofText_append serviceMarker s)
  rwa [markedName_ofText] at h

theorem Inbound.ofFrames_shutdown_none (h : isMarked e.body = false) :
    Inbound.ofFrames (shutdown e none) = .ok (.worker (.shutdown e none)) := by
  rw [← isMarked_toFrames he] at h
  rw [shutdown, Inbound.ofFrames_workerMessage, Option.map_none, Option.toList_none,
    List.append_nil,
    WorkerCommand.ofFrames_shutdown (splitMarker_of_not_isMarked h) (ofFrames?_one he)]
  exact rfl

/-- A marked frame at the end of the body is taken for the name of a service. -/
theorem Inbound.ofFrames_shutdown_none_of_marked {init : Message} {last : Frame}
    (hb : e.body = init ++ [last]) (hm : last.startsWith serviceMarker = true) :
    Inbound.ofFrames (shutdown e none) =
      .ok (.worker (.shutdown (e.withBody init) (some (markedName last)))) := by
  have hf : shutdown e none = workerMessage .shutdown ((e.withBody init).toFrames ++ [last]) := by
    simp [shutdown, Envelope.toFrames, Envelope.withBody, hb]
  have hd : (e.withBody init).depth = 1 := he
  rw [hf, ofFrames_shutdown_concat hd hm]

theorem Inbound.ofFrames_shutdown_none_iff :
    Inbound.ofFrames (shutdown e none) = .ok (.worker (.shutdown e none)) ↔
      ¬isMarked e.body = true := by
  constructor
  · intro h hm
    obtain ⟨last,hlast,hl⟩ := isMarked_iff.mp hm
    obtain ⟨init,hb⟩ := List.getLast?_eq_some_iff.mp hlast
    rw [Inbound.ofFrames_shutdown_none_of_marked he hb hl] at h
    simp at h
  · intro hm
    exact Inbound.ofFrames_shutdown_none he (Bool.not_eq_true _ ▸ hm)

theorem BrokerCommand.ofFrames_request :
    BrokerCommand.ofFrames (Wire.request e) = .ok (.request e) := by
  simp only [BrokerCommand.ofFrames, Wire.request, afterRole_workerMessage, Command.ofFrame?_frame,
    ofFrames?_one he]

end Depth

/-- A request flows to workers only. -/
theorem Inbound.ofFrames_request (e : Envelope) :
    Inbound.ofFrames (request e) = .ok (.worker (.unknown Command.request.frame)) := by
  rw [request, Inbound.ofFrames_workerMessage]
  exact rfl

theorem Inbound.ofFrames_clientMessage (service : Frame) {body : Message} (h : body ≠ []) :
    Inbound.ofFrames (clientMessage service body) = .ok (.client service body) := by
  obtain ⟨frame,body,rfl⟩ := List.exists_cons_of_ne_nil h
  simp [Inbound.ofFrames, clientMessage, show Frame.isEmpty .empty = true from rfl]

theorem Inbound.ofFrames_ready (s : String) :
    Inbound.ofFrames (ready s) = .ok (.worker (.ready s)) := by
  rw [ready, Inbound.ofFrames_workerMessage]
  simp only [WorkerCommand.ofFrames, Command.ofFrame?_frame, Frame.toText_ofText, Except.map]

/-! ## What a worker and a client read -/

theorem BrokerCommand.ofFrames_of_ne {c : Command} (hr : c ≠ .request) (hh : c ≠ .heartbeat)
    (hd : c ≠ .disconnect) (rest : Message) :
    BrokerCommand.ofFrames (workerMessage c rest) = .error (.unexpectedCommand c.frame) := by
  simp only [BrokerCommand.ofFrames, afterRole_workerMessage, Command.ofFrame?_frame]
  cases c <;> first | rfl | contradiction

theorem BrokerCommand.ofFrames_clientMessage (service : Frame) (body : Message) :
    BrokerCommand.ofFrames (clientMessage service body) = .error .notForWorker := by
  simp only [BrokerCommand.ofFrames, afterRole_clientMessage]

theorem ClientReply.ofFrames_clientMessage (s : String) (body : Message) :
    ClientReply.ofFrames (clientMessage (.ofText s) body) = .ok ⟨s,body⟩ := by
  simp [ClientReply.ofFrames, clientMessage, afterRole, show Frame.isEmpty .empty = true from rfl]

theorem ClientReply.ofFrames_workerMessage (c : Command) (rest : Message) :
    ClientReply.ofFrames (workerMessage c rest) = .error .notForClient := by
  simp [ClientReply.ofFrames, workerMessage, afterRole, clientRole_ne_workerRole.symm]

/-! ## The whole protocol -/

/-- The broker, a worker and a client read what the others build for them, and none of them
accepts what is built for another. -/
theorem messages_read_as_built {e : Envelope} (he : e.depth = 1) (s : String) (body : Message) :
    ((body ≠ [] → Inbound.ofFrames (clientMessage (.ofText s) body) =
          .ok (.client (.ofText s) body)) ∧
      Inbound.ofFrames (ready s) = .ok (.worker (.ready s)) ∧
      Inbound.ofFrames (reply e) = .ok (.worker (.reply e)) ∧
      Inbound.ofFrames heartbeat = .ok (.worker .heartbeat) ∧
      Inbound.ofFrames disconnect = .ok (.worker .disconnect) ∧
      Inbound.ofFrames (shutdown e (some s)) = .ok (.worker (.shutdown e (some s))) ∧
      (Inbound.ofFrames (shutdown e none) = .ok (.worker (.shutdown e none)) ↔
        ¬∃ last, e.body.getLast? = some last ∧ last.startsWith serviceMarker = true) ∧
      Inbound.ofFrames (request e) = .ok (.worker (.unknown Command.request.frame))) ∧
    (BrokerCommand.ofFrames (request e) = .ok (.request e) ∧
      BrokerCommand.ofFrames heartbeat = .ok .heartbeat ∧
      BrokerCommand.ofFrames disconnect = .ok .disconnect ∧
      BrokerCommand.ofFrames (ready s) = .error (.unexpectedCommand Command.ready.frame) ∧
      BrokerCommand.ofFrames (reply e) = .error (.unexpectedCommand Command.reply.frame) ∧
      (∀ name, BrokerCommand.ofFrames (shutdown e name) =
        .error (.unexpectedCommand Command.shutdown.frame)) ∧
      ∀ service body, BrokerCommand.ofFrames (clientMessage service body) =
        .error .notForWorker) ∧
    ClientReply.ofFrames (clientMessage (.ofText s) body) = .ok ⟨s,body⟩ ∧
      ∀ c rest, ClientReply.ofFrames (workerMessage c rest) = .error .notForClient := by
  refine ⟨⟨Inbound.ofFrames_clientMessage _,Inbound.ofFrames_ready s,Inbound.ofFrames_reply he,
    rfl,rfl,Inbound.ofFrames_shutdown_some he s,?_,Inbound.ofFrames_request e⟩,
    ⟨BrokerCommand.ofFrames_request he,rfl,rfl,?_,?_,?_,BrokerCommand.ofFrames_clientMessage⟩,
    ClientReply.ofFrames_clientMessage s body,ClientReply.ofFrames_workerMessage⟩
  · rw [Inbound.ofFrames_shutdown_none_iff he, isMarked_iff]
  · exact BrokerCommand.ofFrames_of_ne (by decide) (by decide) (by decide) _
  · exact BrokerCommand.ofFrames_of_ne (by decide) (by decide) (by decide) _
  · intro name
    exact BrokerCommand.ofFrames_of_ne (by decide) (by decide) (by decide) _

/-- An address without bytes, and a body that is only a marked frame: without a name of its own
the notice takes the body's, with one it keeps the body. -/
theorem messages_read_as_built_marked :
    (Envelope.mk [.empty] [.ofText "SERVICE_NAME:mmi.ü"]).depth = 1 ∧
      Inbound.ofFrames (shutdown ⟨[.empty],[.ofText "SERVICE_NAME:mmi.ü"]⟩ none) ≠
        .ok (.worker (.shutdown ⟨[.empty],[.ofText "SERVICE_NAME:mmi.ü"]⟩ none)) ∧
      Inbound.ofFrames (shutdown ⟨[.empty],[.ofText "SERVICE_NAME:mmi.ü"]⟩ (some "")) =
        .ok (.worker (.shutdown ⟨[.empty],[.ofText "SERVICE_NAME:mmi.ü"]⟩ (some ""))) ∧
      Inbound.ofFrames (clientMessage (.ofText "ü") [.empty]) =
        .ok (.client (.ofText "ü") [.empty]) := by
  have he : (Envelope.mk [.empty] [.ofText "SERVICE_NAME:mmi.ü"]).depth = 1 := by decide
  obtain ⟨⟨_,_,_,_,_,_,hnone,_⟩,_⟩ := messages_read_as_built he "" []
  obtain ⟨⟨_,_,_,_,_,hsome,_⟩,_⟩ := messages_read_as_built he "" []
  obtain ⟨⟨hclient,_⟩,_⟩ := messages_read_as_built he "ü" [.empty]
  refine ⟨he,?_,hsome,hclient (by decide)⟩
  intro h
  exact hnone.mp h ⟨_,rfl,by decide⟩

end Wire
end Majordomo
