import Majordomo.Proofs.Exchange.World
import Majordomo.Proofs.Exchange.Parcel
import Mathlib.Data.List.Count
import Mathlib.Data.List.Nodup

/-! # A ledger of requests and replies

Everything that is on its way is claimed for one request of the history, and no request
is claimed twice or after it was answered. `answered` stands for what the handlers have
answered so far.
-/
namespace Majordomo.Exchange

/-- The request at position `i` of the history backs the parcel. -/
def Backs (answered : String → Frame → Message → Message → Prop) (history : List Event) (i : Nat)
    (p : Parcel) : Prop :=
  ∃ client name body, history[i]? = some (.asked client (Wire.clientMessage name body)) ∧
    Wire.isInternal name.toText = false ∧
    (p = .request client name.toText body ∨
      ∃ reply, p = .reply client name.toText reply ∧ answered name.toText client body reply)

def Answers (answered : String → Frame → Message → Message → Prop) (history : List Event)
    (i j : Nat) : Prop :=
  ∃ client name body reply, i < j ∧
    history[i]? = some (.asked client (Wire.clientMessage name body)) ∧
    Wire.isInternal name.toText = false ∧
    history[j]? = some (.replied client (Wire.clientMessage (.ofText name.toText) reply)) ∧
    answered name.toText client body reply

def RepliedAt (history : List Event) (j : Nat) : Prop :=
  ∃ client frames, history[j]? = some (.replied client frames)

/-- The claims cover the load, and `origin` gives the request of every reply so far. -/
structure Ledger (answered : String → Frame → Message → Message → Prop) (history : List Event)
    (load : Parcel → Nat) (claims : List (Nat × Parcel)) (origin : Nat → Nat) : Prop where
  covered : ∀ p, load p ≤ (claims.map Prod.snd).count p
  distinct : (claims.map Prod.fst).Nodup
  backed : ∀ c ∈ claims, Backs answered history c.1 c.2
  answers : ∀ j, RepliedAt history j → Answers answered history (origin j) j
  settled : ∀ j, RepliedAt history j → origin j ∉ claims.map Prod.fst
  injective : ∀ j k, RepliedAt history j → RepliedAt history k → origin j = origin k → j = k

variable {answered answered' : String → Frame → Message → Message → Prop} {history : List Event}
  {load load' : Parcel → Nat} {claims : List (Nat × Parcel)} {origin : Nat → Nat}

theorem getElem?_append_of_eq_some {i : Nat} {e : Event} (h : history[i]? = some e)
    (later : List Event) : (history ++ later)[i]? = some e := by
  obtain ⟨hi,_⟩ := List.getElem?_eq_some_iff.mp h
  rw [List.getElem?_append_left hi, h]

theorem Backs.mono {i : Nat} {p : Parcel} (h : Backs answered history i p) (later : List Event)
    (ha : ∀ n c b r, answered n c b r → answered' n c b r) :
    Backs answered' (history ++ later) i p := by
  obtain ⟨client,name,body,hi,hn,hp⟩ := h
  refine ⟨client,name,body,getElem?_append_of_eq_some hi later,hn,hp.imp_right ?_⟩
  rintro ⟨reply,rfl,hr⟩
  exact ⟨reply,rfl,ha _ _ _ _ hr⟩

theorem Answers.mono {i j : Nat} (h : Answers answered history i j) (later : List Event)
    (ha : ∀ n c b r, answered n c b r → answered' n c b r) :
    Answers answered' (history ++ later) i j := by
  obtain ⟨client,name,body,reply,hij,hi,hn,hj,hr⟩ := h
  exact ⟨client,name,body,reply,hij,getElem?_append_of_eq_some hi later,hn,
    getElem?_append_of_eq_some hj later,ha _ _ _ _ hr⟩

/-- After one more event, a reply stands in the old history or is that event. -/
theorem RepliedAt.concat {j : Nat} {e : Event} (h : RepliedAt (history ++ [e]) j) :
    RepliedAt history j ∧ j ≠ history.length ∨
      j = history.length ∧ ∃ client frames, e = .replied client frames := by
  obtain ⟨client,frames,hj⟩ := h
  by_cases hl : j < history.length
  · rw [List.getElem?_append_left hl] at hj
    exact .inl ⟨⟨client,frames,hj⟩,Nat.ne_of_lt hl⟩
  · have hlt := (List.getElem?_eq_some_iff.mp hj).1
    simp only [List.length_append, List.length_singleton] at hlt
    obtain rfl : j = history.length := by omega
    rw [List.getElem?_concat_length] at hj
    exact .inr ⟨rfl,client,frames,Option.some.inj hj⟩

namespace Ledger

/-- Less may be on its way, and more may have been answered. -/
theorem mono (h : Ledger answered history load claims origin) (hl : ∀ p, load' p ≤ load p)
    (ha : ∀ n c b r, answered n c b r → answered' n c b r) :
    Ledger answered' history load' claims origin where
  covered p := Nat.le_trans (hl p) (h.covered p)
  distinct := h.distinct
  backed c hc := by simpa using (h.backed c hc).mono [] ha
  answers j hj := by simpa using (h.answers j hj).mono [] ha
  settled := h.settled
  injective := h.injective

theorem claim_of_load (h : Ledger answered history load claims origin) {p : Parcel}
    (hp : 0 < load p) : ∃ i, (i,p) ∈ claims := by
  have hc := List.count_pos_iff.mp (Nat.lt_of_lt_of_le hp (h.covered p))
  obtain ⟨⟨i,q⟩,hm,rfl⟩ := List.mem_map.mp hc
  exact ⟨i,hm⟩

theorem lt_of_mem (h : Ledger answered history load claims origin) {i : Nat} {p : Parcel}
    (hm : (i,p) ∈ claims) : i < history.length := by
  obtain ⟨client,name,body,hi,_⟩ := h.backed _ hm
  exact (List.getElem?_eq_some_iff.mp hi).1

theorem origin_lt (h : Ledger answered history load claims origin) {j : Nat}
    (hj : RepliedAt history j) : origin j < history.length := by
  obtain ⟨_,_,_,_,_,hi,_⟩ := h.answers j hj
  exact (List.getElem?_eq_some_iff.mp hi).1

/-- A client asks: its request can be claimed, since nobody has claimed it before. -/
theorem ask (h : Ledger answered history load claims origin) {client : Frame} {frames : Message}
    (hl : ∀ p, load' p ≤ load p + (Parcel.asked? client frames).toList.count p) :
    ∃ claims', Ledger answered (history ++ [.asked client frames]) load' claims' origin := by
  have hb : ∀ c ∈ claims, Backs answered (history ++ [.asked client frames]) c.1 c.2 :=
    fun c hc => (h.backed c hc).mono _ fun _ _ _ _ hr => hr
  have hr : ∀ j, RepliedAt (history ++ [.asked client frames]) j → RepliedAt history j := by
    intro j hj
    rcases hj.concat with ⟨hj,_⟩ | ⟨_,_,_,he⟩
    · exact hj
    · cases he
  have hans : ∀ j, RepliedAt (history ++ [.asked client frames]) j →
      Answers answered (history ++ [.asked client frames]) (origin j) j :=
    fun j hj => (h.answers j (hr j hj)).mono _ fun _ _ _ _ hr => hr
  have hinj : ∀ j k, RepliedAt (history ++ [.asked client frames]) j →
      RepliedAt (history ++ [.asked client frames]) k → origin j = origin k → j = k :=
    fun j k hj hk => h.injective j k (hr j hj) (hr k hk)
  cases hp : Parcel.asked? client frames with
  | none =>
    refine ⟨claims,?_,h.distinct,hb,hans,fun j hj => h.settled j (hr j hj),hinj⟩
    intro p
    have hlp := hl p
    rw [hp] at hlp
    exact Nat.le_trans hlp (h.covered p)
  | some q =>
    have hnew : history.length ∉ claims.map Prod.fst := by
      intro hm
      obtain ⟨⟨i,p⟩,hc,rfl⟩ := List.mem_map.mp hm
      exact absurd (h.lt_of_mem hc) (Nat.lt_irrefl _)
    refine ⟨(history.length,q) :: claims,?_,?_,?_,hans,?_,hinj⟩
    · intro p
      have hlp := hl p
      have hcp := h.covered p
      rw [hp] at hlp
      simp only [List.map_cons, Option.toList_some, List.count_cons, List.count_nil] at hlp ⊢
      omega
    · exact List.nodup_cons.mpr ⟨hnew,h.distinct⟩
    · intro c hc
      rcases List.mem_cons.mp hc with rfl | hc
      · obtain ⟨name,body,hf,hn,rfl⟩ := Parcel.asked?_eq_some hp
        exact ⟨client,name,body,by simp [hf],hn,.inl rfl⟩
      · exact hb c hc
    · intro j hj hm
      rcases List.mem_cons.mp hm with he | hm
      · exact absurd he (Nat.ne_of_lt (h.origin_lt (hr j hj)))
      · exact h.settled j (hr j hj) hm

/-- A handler answers: its reply, if there is one, takes the place of the request. -/
theorem respond (h : Ledger answered history load claims origin) {client : Frame} {service : String}
    {body : Message} {reply? : Option Message}
    (hl : ∀ p, load' p + [Parcel.request client service body].count p ≤
      load p + (reply?.map (Parcel.reply client service)).toList.count p)
    (ha : ∀ n c b r, answered n c b r → answered' n c b r)
    (hr : ∀ reply, reply? = some reply → answered' service client body reply) :
    ∃ claims', Ledger answered' history load' claims' origin := by
  cases reply? with
  | none =>
    refine ⟨claims,h.mono ?_ ha⟩
    intro p
    have := hl p
    simp only [Option.map_none, Option.toList_none, List.count_nil] at this
    omega
  | some reply =>
    have hpos : 0 < load (.request client service body) := by
      have := hl (.request client service body)
      simp at this
      omega
    obtain ⟨i,hi⟩ := h.claim_of_load hpos
    have hperm := List.perm_cons_erase hi
    have hfst : (((i,Parcel.reply client service reply) :: claims.erase
        (i,.request client service body)).map Prod.fst).Perm (claims.map Prod.fst) :=
      (hperm.map Prod.fst).symm
    refine ⟨(i,.reply client service reply) :: claims.erase (i,.request client service body),
      ?_,hfst.nodup_iff.mpr h.distinct,?_,?_,?_,h.injective⟩
    · intro p
      have hc := (hperm.map Prod.snd).count_eq p
      have hlp := hl p
      have hcp := h.covered p
      simp only [List.map_cons, Option.map_some, Option.toList_some, List.count_cons,
        List.count_nil] at hc hlp ⊢
      omega
    · intro c hc
      rcases List.mem_cons.mp hc with rfl | hc
      · obtain ⟨client',name,body',he,hn,hp | ⟨r,hp,_⟩⟩ := h.backed _ hi
        · cases hp
          exact ⟨client,name,body,he,hn,.inr ⟨reply,rfl,hr reply rfl⟩⟩
        · cases hp
      · simpa using (h.backed c (List.mem_of_mem_erase hc)).mono [] ha
    · intro j hj
      simpa using (h.answers j hj).mono [] ha
    · intro j hj hm
      exact h.settled j hj (hfst.mem_iff.mp hm)

/-- A reply reaches its client: its request is answered and can be claimed no more. -/
theorem reply (h : Ledger answered history load claims origin) {client : Frame} {service : String}
    {body : Message} (hl : ∀ p, load' p + [Parcel.reply client service body].count p ≤ load p) :
    ∃ claims' origin', Ledger answered
      (history ++ [.replied client (Wire.clientMessage (.ofText service) body)]) load'
      claims' origin' := by
  have hpos : 0 < load (.reply client service body) := by
    have := hl (.reply client service body)
    simp at this
    omega
  obtain ⟨i,hi⟩ := h.claim_of_load hpos
  have hperm := List.perm_cons_erase hi
  have hfst := hperm.map Prod.fst
  have hlt := h.lt_of_mem hi
  have hd := hfst.nodup_iff.mp h.distinct
  have hsub : ∀ k, k ∈ (claims.erase (i,.reply client service body)).map Prod.fst →
      k ∈ claims.map Prod.fst := by
    intro k hk
    exact hfst.mem_iff.mpr (List.mem_cons_of_mem _ hk)
  have hr : ∀ j, RepliedAt (history ++
      [.replied client (Wire.clientMessage (.ofText service) body)]) j →
      RepliedAt history j ∧ j ≠ history.length ∨ j = history.length := by
    intro j hj
    exact hj.concat.imp_right And.left
  refine ⟨claims.erase (i,.reply client service body),Function.update origin history.length i,
    ?_,(List.nodup_cons.mp hd).2,?_,?_,?_,?_⟩
  · intro p
    have hc := (hperm.map Prod.snd).count_eq p
    have hlp := hl p
    have hcp := h.covered p
    simp only [List.map_cons, List.count_cons, List.count_nil] at hc hlp
    omega
  · intro c hc
    exact (h.backed c (List.mem_of_mem_erase hc)).mono _ fun _ _ _ _ hr => hr
  · intro j hj
    rcases hr j hj with ⟨hj,hne⟩ | rfl
    · rw [Function.update_of_ne hne]
      exact (h.answers j hj).mono _ fun _ _ _ _ hr => hr
    · rw [Function.update_self]
      obtain ⟨client',name,body',he,hn,hp | ⟨r,hp,ha⟩⟩ := h.backed _ hi
      · cases hp
      · cases hp
        exact ⟨client,name,body',body,hlt,getElem?_append_of_eq_some he _,hn,by simp,ha⟩
  · intro j hj hm
    rcases hr j hj with ⟨hj,hne⟩ | rfl
    · rw [Function.update_of_ne hne] at hm
      exact h.settled j hj (hsub _ hm)
    · rw [Function.update_self] at hm
      exact (List.nodup_cons.mp hd).1 hm
  · intro j k hj hk he
    have hmem : i ∈ claims.map Prod.fst := List.mem_map.mpr ⟨_,hi,rfl⟩
    rcases hr j hj with ⟨hj,hne⟩ | rfl <;> rcases hr k hk with ⟨hk,hne'⟩ | rfl
    · rw [Function.update_of_ne hne, Function.update_of_ne hne'] at he
      exact h.injective j k hj hk he
    · rw [Function.update_of_ne hne, Function.update_self] at he
      exact absurd (he ▸ hmem) (h.settled j hj)
    · rw [Function.update_of_ne hne', Function.update_self] at he
      exact absurd (he ▸ hmem) (h.settled k hk)
    · rfl

end Ledger
end Majordomo.Exchange
