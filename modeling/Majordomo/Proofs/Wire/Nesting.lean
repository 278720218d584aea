import Majordomo.Proofs.Wire.Grammar

/-! # Envelopes around envelopes

Frames are an envelope of a given depth in at most one way. The frames of an envelope are read at
every smaller depth too: the addresses further out then stand around the frames of the envelope
further in. At a greater depth they are read only if the body goes on like an envelope.
-/
namespace Majordomo.Envelope
variable {e whole : Envelope} {frames : Message} {depth k : Nat}

theorem ofFrames?_eq_some :
    ofFrames? depth frames = some e ↔ e.depth = depth ∧ e.toFrames = frames := by
  constructor
  · intro h
    exact ⟨depth_of_ofFrames? h,(toFrames_of_ofFrames? h).symm⟩
  · rintro ⟨rfl,rfl⟩
    exact e.ofFrames?_toFrames

def inner (k : Nat) (e : Envelope) : Envelope := { e with route := e.route.drop k }

def outer (k : Nat) (e : Envelope) : Envelope := ⟨e.route.take k,(e.inner k).toFrames⟩

theorem route_foldr_wrap (route : List Frame) (e : Envelope) :
    route.foldr wrap e = ⟨route ++ e.route,e.body⟩ := by
  induction route with
  | nil => rfl
  | cons address route ih => rw [List.foldr_cons, ih]; rfl

theorem foldr_wrap_inner (k : Nat) (e : Envelope) :
    (e.outer k).route.foldr wrap (e.inner k) = e := by
  rw [route_foldr_wrap]
  simp [outer, inner]

/-- It makes no difference at which depth an envelope is divided. -/
theorem toFrames_append (route route' : List Frame) (body : Message) :
    toFrames ⟨route ++ route',body⟩ = toFrames ⟨route,toFrames ⟨route',body⟩⟩ := by
  simp [toFrames]

theorem toFrames_outer (k : Nat) (e : Envelope) : (e.outer k).toFrames = e.toFrames := by
  rw [outer, inner, ← toFrames_append, List.take_append_drop]

theorem ofFrames?_of_le (h : k ≤ e.depth) : ofFrames? k e.toFrames = some (e.outer k) := by
  refine ofFrames?_eq_some.mpr ⟨?_,toFrames_outer k e⟩
  rw [depth, outer, List.length_take]
  exact Nat.min_eq_left h

/-- At a greater depth the body gives the addresses that are missing, and the rest. -/
theorem ofFrames?_of_lt (h : e.depth < k) :
    ofFrames? k e.toFrames = some whole ↔ ∃ addresses rest, addresses.length = k - e.depth ∧
      e.body = toFrames ⟨addresses,rest⟩ ∧ whole = ⟨e.route ++ addresses,rest⟩ := by
  rw [ofFrames?_eq_some]
  constructor
  · rintro ⟨rfl,hf⟩
    -- read at the depth of `e`, the frames of `whole` are those of `e`
    have hread : some (whole.outer e.depth) = some e := by
      rw [← ofFrames?_of_le (Nat.le_of_lt h), hf, e.ofFrames?_toFrames]
    have he : whole.outer e.depth = e := Option.some.inj hread
    have hroute : whole.route.take e.depth = e.route := congrArg route he
    refine ⟨whole.route.drop e.depth,whole.body,List.length_drop,(congrArg body he).symm,?_⟩
    rw [← hroute, List.take_append_drop]
  · rintro ⟨addresses,rest,hl,hb,rfl⟩
    constructor
    · rw [depth, List.length_append, hl]
      exact Nat.add_sub_of_le (Nat.le_of_lt h)
    · rw [toFrames_append, ← hb]

/-- Reading is the inverse of writing at every depth. So the frames of an envelope are read at each
smaller depth, and give its outermost addresses, in their order, around the frames of the envelope
inside them; at a greater depth they are read just if the body begins with the addresses that are
missing, each followed by an empty frame. -/
theorem envelopes_nest :
    (∀ depth frames e, ofFrames? depth frames = some e ↔ e.depth = depth ∧ e.toFrames = frames) ∧
    (∀ (e : Envelope) k, k ≤ e.depth → ∃ around within, ofFrames? k e.toFrames = some around ∧
      around.route = e.route.take k ∧ around.route.foldr wrap within = e ∧
      around.body = within.toFrames ∧ around.toFrames = e.toFrames) ∧
    ∀ (e : Envelope) k, e.depth < k → ∀ whole, ofFrames? k e.toFrames = some whole ↔
      ∃ addresses rest, addresses.length = k - e.depth ∧
        e.body = (addresses.flatMap fun address => [address, .empty]) ++ rest ∧
        whole = ⟨e.route ++ addresses,rest⟩ := by
  refine ⟨fun _ _ _ => ofFrames?_eq_some,fun e k hk => ?_,fun e k hk whole => ofFrames?_of_lt hk⟩
  exact ⟨e.outer k,e.inner k,ofFrames?_of_le hk,rfl,e.foldr_wrap_inner k,rfl,toFrames_outer k e⟩

/-- An address without bytes before a body that goes on like an envelope: one depth more can be
read, and two cannot. -/
example : let e : Envelope := ⟨[.empty],[.ofText "a",.empty,.empty]⟩
    ofFrames? 2 e.toFrames = some ⟨[.empty,.ofText "a"],[.empty]⟩ ∧
      ofFrames? 3 e.toFrames = none := by
  decide

end Majordomo.Envelope
