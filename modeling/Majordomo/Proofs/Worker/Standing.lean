import Majordomo.Proofs.Worker.Runs

/-! # The journal of a worker, read from its beginning

Read entry by entry, a journal tells what the worker is about: whether it has a connection and how
far it got on it, or from what time on it may try for the next one. `Next` says which entry may
follow, `Path` does so for a journal; what a path tells of one connection follows from its steps.
-/
namespace Majordomo.Worker

def Output.isMiddle : Output → Bool
  | .heartbeat | .reply _ | .shutdown _ => true
  | .ready | .disconnect => false

/-- What a worker writes to a connection: READY, signs of life, replies and notices, DISCONNECT;
it may end anywhere. -/
def Scripted (w : List Output) : Prop :=
  ∃ middle, (∀ o ∈ middle, o.isMiddle = true) ∧ w <+: .ready :: (middle ++ [.disconnect])

def Begun (w : List Output) : Prop :=
  ∃ middle, (∀ o ∈ middle, o.isMiddle = true) ∧ w = .ready :: middle

section
variable {w : List Output} {o : Output}

theorem scripted_nil : Scripted [] := ⟨[],by simp,List.nil_prefix⟩

theorem begun_ready : Begun [.ready] := ⟨[],by simp,rfl⟩

theorem Begun.append (h : Begun w) (ho : o.isMiddle = true) : Begun (w ++ [o]) := by
  obtain ⟨middle,hm,rfl⟩ := h
  exact ⟨middle ++ [o],List.forall_mem_append.2 ⟨hm,by simpa using ho⟩,rfl⟩

theorem Begun.scripted (h : Begun w) : Scripted w := by
  obtain ⟨middle,hm,rfl⟩ := h
  exact ⟨middle,hm,[.disconnect],rfl⟩

theorem Begun.disconnect (h : Begun w) : Scripted (w ++ [.disconnect]) := by
  obtain ⟨middle,hm,rfl⟩ := h
  exact ⟨middle,hm,List.prefix_rfl⟩

end

def Entry.isUpkeep (id : Nat) : Entry → Bool
  | .wrote k o => k == id && o.isMiddle
  | .heard k _ => k == id
  | .called .. | .reported _ => true
  | .dialled | .opened _ | .left .. => false

def Entry.isAttempt : Entry → Bool
  | .dialled | .opened _ => true
  | _ => false

inductive Place
  /-- It has no connection and tries for the next one not before a time. -/
  | apart (due : Nat)
  /-- It has still to announce itself on its last connection. -/
  | fresh
  | engaged
  /-- It has told the broker that it goes. -/
  | parted
  | finished
deriving DecidableEq

structure Standing where
  /-- How many connections were opened. -/
  opened : Nat := 0
  /-- When the last entry was made. -/
  time : Nat := 0
  place : Place := .apart 0

/-- An entry that may follow, and what is told with it. A worker waits for `delay` before it tries
for another connection. -/
inductive Next (delay : Nat) : Standing → Nat × Entry → Standing → Prop
  | dialled {n u t due : Nat} (hu : u ≤ t) (hd : due ≤ t) :
    Next delay ⟨n,u,.apart due⟩ (t,.dialled) ⟨n,t,.apart due⟩
  | reported {n u t due : Nat} {f : Fault} (hu : u ≤ t) :
    Next delay ⟨n,u,.apart due⟩ (t,.reported f) ⟨n,t,.apart due⟩
  | opened {n u t due : Nat} (hu : u ≤ t) (hd : due ≤ t) :
    Next delay ⟨n,u,.apart due⟩ (t,.opened n) ⟨n + 1,t,.fresh⟩
  | ready {n u t : Nat} (hu : u ≤ t) :
    Next delay ⟨n + 1,u,.fresh⟩ (t,.wrote n .ready) ⟨n + 1,t,.engaged⟩
  | upkeep {n u t : Nat} {e : Entry} (hu : u ≤ t) (he : e.isUpkeep n = true) :
    Next delay ⟨n + 1,u,.engaged⟩ (t,e) ⟨n + 1,t,.engaged⟩
  | leave {n u t : Nat} {why : Exit} (hu : u ≤ t) (hw : why ≠ .stopped) :
    Next delay ⟨n + 1,u,.engaged⟩ (t,.left n why) ⟨n + 1,t,.apart (t + delay)⟩
  | part {n u t : Nat} (hu : u ≤ t) :
    Next delay ⟨n + 1,u,.engaged⟩ (t,.wrote n .disconnect) ⟨n + 1,t,.parted⟩
  | vanish {n u t : Nat} (hu : u ≤ t) :
    Next delay ⟨n + 1,u,.engaged⟩ (t,.left n .stopped) ⟨n + 1,t,.finished⟩
  | stop {n u t : Nat} (hu : u ≤ t) :
    Next delay ⟨n + 1,u,.parted⟩ (t,.left n .stopped) ⟨n + 1,t,.finished⟩

inductive Path (delay : Nat) : Standing → List (Nat × Entry) → Standing → Prop
  | nil (st : Standing) : Path delay st [] st
  | cons {st st' st'' : Standing} {x : Nat × Entry} {l : List (Nat × Entry)}
      (h : Next delay st x st') (hl : Path delay st' l st'') : Path delay st (x :: l) st''

def writtenIn (id : Nat) (l : List (Nat × Entry)) : List Output :=
  l.filterMap fun x => x.2.wrote? id

@[simp] theorem writtenIn_nil (id : Nat) : writtenIn id [] = [] := rfl

@[simp] theorem writtenIn_append (id : Nat) (l l' : List (Nat × Entry)) :
    writtenIn id (l ++ l') = writtenIn id l ++ writtenIn id l' := List.filterMap_append

theorem mem_writtenIn {id : Nat} {o : Output} {l : List (Nat × Entry)} :
    o ∈ writtenIn id l ↔ ∃ t, (t,.wrote id o) ∈ l := by
  constructor
  · intro h
    obtain ⟨⟨t,e⟩,hx,he⟩ := List.mem_filterMap.1 h
    cases e with
    | wrote k o' =>
      simp only [Entry.wrote?, Option.ite_none_right_eq_some, Option.some.injEq] at he
      obtain ⟨rfl,rfl⟩ := he
      exact ⟨t,hx⟩
    | _ => cases he
  · rintro ⟨t,h⟩
    exact List.mem_filterMap.2 ⟨_,h,by simp [Entry.wrote?]⟩

variable {delay : Nat} {st st' st'' : Standing} {x : Nat × Entry} {l l' : List (Nat × Entry)}
  {id : Nat}

namespace Path

theorem append (h : Path delay st l st') (h' : Path delay st' l' st'') :
    Path delay st (l ++ l') st'' := by
  induction h with
  | nil => exact h'
  | cons hx _ ih => exact .cons hx (ih h')

theorem single (h : Next delay st x st') : Path delay st [x] st' := .cons h (.nil _)

theorem exists_of_append (h : Path delay st (l ++ l') st'') :
    ∃ st', Path delay st l st' ∧ Path delay st' l' st'' := by
  induction l generalizing st with
  | nil => exact ⟨st,.nil st,h⟩
  | cons x l ih =>
    cases h with
    | cons hx hl =>
      obtain ⟨st',hp,hs⟩ := ih hl
      exact ⟨st',.cons hx hp,hs⟩

/-- What every entry keeps, a journal keeps. -/
theorem invariant {P : Standing → Prop} (hP : ∀ st x st', Next delay st x st' → P st → P st')
    (h : Path delay st l st') (hs : P st) : P st' := by
  induction h with
  | nil => exact hs
  | cons hx _ ih => exact ih (hP _ _ _ hx hs)

/-- Each entry follows on something that the entries before it keep. -/
theorem exists_next_of_mem {P : Standing → Prop}
    (hP : ∀ st x st', Next delay st x st' → P st → P st') (h : Path delay st l st') (hs : P st)
    (hx : x ∈ l) : ∃ u u', Next delay u x u' ∧ P u := by
  induction h with
  | nil => cases hx
  | cons hy _ ih =>
    rcases List.mem_cons.1 hx with rfl | hx
    · exact ⟨_,_,hy,hs⟩
    · exact ih (hP _ _ _ hy hs) hx

end Path

namespace Standing

structure Admits (id : Nat) (w : List Output) (st : Standing) : Prop where
  scripted : Scripted w
  unopened : st.opened ≤ id → w = []
  fresh : st.opened = id + 1 → st.place = .fresh → w = []
  engaged : st.opened = id + 1 → st.place = .engaged → Begun w

theorem admits_nil (id : Nat) : ({} : Standing).Admits id [] :=
  ⟨scripted_nil,fun _ => rfl,fun _ _ => rfl,nofun⟩

def Past (id : Nat) (st : Standing) : Prop :=
  id < st.opened ∧ (id + 1 = st.opened → st.place = .finished ∨ ∃ due, st.place = .apart due)

/-- The earliest time at which the worker may try for a connection. -/
def due (st : Standing) : Nat :=
  match st.place with
  | .apart due => due
  | _ => st.time

end Standing

namespace Next

theorem admits_of_silent {w : List Output} (h : Next delay st x st')
    (hx : x.2.wrote? id = none) (hw : st.Admits id w) : st'.Admits id w := by
  obtain ⟨hs,hu,hf,he⟩ := hw
  cases h with
  | dialled | reported | leave | vanish | stop | part => exact ⟨hs,hu,by simp,by simp⟩
  | opened =>
    exact ⟨hs,fun h => hu (Nat.le_of_succ_le h),
      fun h _ => hu (Nat.le_of_eq (Nat.succ.inj h)),by simp⟩
  | ready =>
    refine ⟨hs,hu,by simp,fun h => ?_⟩
    simp [Entry.wrote?, Nat.succ.inj h] at hx
  | upkeep => exact ⟨hs,hu,by simp,he⟩

theorem admits_of_wrote {w : List Output} {o : Output} (h : Next delay st x st')
    (hx : x.2.wrote? id = some o) (hw : st.Admits id w) : st'.Admits id (w ++ [o]) := by
  obtain ⟨t,e⟩ := x
  cases e with
  | wrote k o' =>
    simp only [Entry.wrote?, Option.ite_none_right_eq_some, Option.some.injEq] at hx
    obtain ⟨rfl,rfl⟩ := hx
    cases h with
    | ready =>
      rw [hw.fresh rfl rfl]
      exact ⟨begun_ready.scripted,by simp,by simp,fun _ _ => begun_ready⟩
    | part => exact ⟨(hw.engaged rfl rfl).disconnect,by simp,by simp,by simp⟩
    | upkeep _ he =>
      simp only [Entry.isUpkeep, Bool.and_eq_true, beq_iff_eq] at he
      obtain ⟨rfl,hm⟩ := he
      have hb := (hw.engaged rfl rfl).append hm
      exact ⟨hb.scripted,by simp,by simp,fun _ _ => hb⟩
  | _ => cases hx

theorem past (h : Next delay st x st') (hp : st.Past id) : st'.Past id := by
  obtain ⟨hlt,hlast⟩ := hp
  cases h with
  | dialled | reported => exact ⟨hlt,fun _ => .inr ⟨_,rfl⟩⟩
  | opened =>
    refine ⟨Nat.lt_succ_of_lt hlt,fun h => ?_⟩
    exact absurd (Nat.succ.inj h) (Nat.ne_of_lt hlt)
  | leave => exact ⟨hlt,fun _ => .inr ⟨_,rfl⟩⟩
  | vanish | stop => exact ⟨hlt,fun _ => .inl rfl⟩
  | ready | upkeep | part => exact ⟨hlt,fun h => absurd (hlast h) (by simp)⟩

/-- Nothing is written to a connection that the worker is done with. -/
theorem not_wrote_of_past {t : Nat} {o : Output} (h : Next delay st (t,.wrote id o) st') :
    ¬ st.Past id := by
  rintro ⟨_,hlast⟩
  cases h with
  | ready | part => exact absurd (hlast rfl) (by simp)
  | upkeep _ he =>
    simp only [Entry.isUpkeep, Bool.and_eq_true, beq_iff_eq] at he
    obtain ⟨rfl,_⟩ := he
    exact absurd (hlast rfl) (by simp)

theorem due_le (h : Next delay st x st') : st.due ≤ st'.due := by
  cases h <;> simp only [Standing.due] <;> omega

theorem due_le_of_attempt (h : Next delay st x st') (hx : x.2.isAttempt = true) :
    st.due ≤ x.1 := by
  cases h with
  | dialled _ hd | opened _ hd => exact hd
  | @upkeep _ _ _ e _ he => cases e <;> simp [Entry.isAttempt, Entry.isUpkeep] at hx he
  | _ => cases hx

/-- Once the worker has stopped it notes nothing. -/
theorem not_finished (h : Next delay st x st') : st.place ≠ .finished := by
  cases h <;> simp

end Next

namespace Path

theorem writtenIn_admits {w : List Output} (h : Path delay st l st') (hw : st.Admits id w) :
    st'.Admits id (w ++ writtenIn id l) := by
  induction h generalizing w with
  | nil => simpa using hw
  | @cons _ _ _ x l hx _ ih =>
    cases ho : x.2.wrote? id with
    | none =>
      rw [show writtenIn id (x :: l) = writtenIn id l by simp [writtenIn, ho]]
      exact ih (hx.admits_of_silent ho hw)
    | some o =>
      rw [show writtenIn id (x :: l) = [o] ++ writtenIn id l by simp [writtenIn, ho],
        ← List.append_assoc]
      exact ih (hx.admits_of_wrote ho hw)

theorem eq_nil_of_finished (h : Path delay st l st') (hs : st.place = .finished) : l = [] := by
  cases h with
  | nil => rfl
  | cons hx => exact absurd hs hx.not_finished

/-- What follows on the end of a connection. -/
theorem of_left {t : Nat} {why : Exit} (h : Path delay st ((t,.left id why) :: l) st') :
    (∀ o, o ∉ writtenIn id l) ∧ (why = .stopped → l = [] ∧ st'.place = .finished) ∧
      (why ≠ .stopped → ∀ x ∈ l, x.2.isAttempt = true → t + delay ≤ x.1) := by
  cases h with
  | @cons _ u _ _ _ hx hl =>
    have hend : u.Past id ∧ (why = .stopped → u.place = .finished) ∧
        (why ≠ .stopped → u.due = t + delay) := by
      cases hx with
      | leave _ hw =>
        exact ⟨⟨Nat.lt_succ_self _,fun _ => .inr ⟨_,rfl⟩⟩,fun h => absurd h hw,fun _ => rfl⟩
      | vanish | stop =>
        exact ⟨⟨Nat.lt_succ_self _,fun _ => .inl rfl⟩,fun _ => rfl,fun h => absurd rfl h⟩
      | upkeep _ he => cases he
    obtain ⟨hpast,hover,hdue⟩ := hend
    refine ⟨fun o ho => ?_,fun hw => ?_,fun hw x hx hattempt => ?_⟩
    · obtain ⟨t',hmem⟩ := mem_writtenIn.1 ho
      obtain ⟨v,v',hv,hp⟩ := hl.exists_next_of_mem (fun _ _ _ h => h.past) hpast hmem
      exact hv.not_wrote_of_past hp
    · obtain rfl := hl.eq_nil_of_finished (hover hw)
      cases hl
      exact ⟨rfl,hover hw⟩
    · obtain ⟨v,v',hv,hp⟩ := hl.exists_next_of_mem (P := fun v => t + delay ≤ v.due)
        (fun _ _ _ h hle => Nat.le_trans hle h.due_le) (Nat.le_of_eq (hdue hw).symm) hx
      exact Nat.le_trans hp (hv.due_le_of_attempt hattempt)

/-- What follows on DISCONNECT. -/
theorem of_disconnect {t : Nat} (h : Path delay st ((t,.wrote id .disconnect) :: l) st')
    (hp : st'.place ≠ .parted) :
    st'.opened = id + 1 ∧ st'.place = .finished ∧ ∃ u, l = [(u,.left id .stopped)] := by
  cases h with
  | cons hx hl =>
    cases hx with
    | upkeep _ he => simp [Entry.isUpkeep, Output.isMiddle] at he
    | part =>
      cases hl with
      | nil => exact absurd rfl hp
      | cons hy hl =>
        cases hy with
        | stop =>
          obtain rfl := hl.eq_nil_of_finished rfl
          cases hl
          exact ⟨rfl,rfl,_,rfl⟩

/-- Between two connections the worker has left the earlier one. -/
theorem left_mem_or {n due : Nat} (h : Path delay st l st') (hn : st'.opened = n + 1)
    (hp : st'.place = .apart due) :
    (∃ t why, (t,.left n why) ∈ l ∧ why ≠ .stopped ∧ t + delay = due) ∨
      (st.opened = n + 1 ∧ st.place = .apart due) := by
  induction h with
  | nil => exact .inr ⟨hn,hp⟩
  | cons hx _ ih =>
    rcases ih hn hp with ⟨t,why,hmem,hl⟩ | ⟨hn,hp⟩
    · exact .inl ⟨t,why,List.mem_cons_of_mem _ hmem,hl⟩
    · cases hx with
      | dialled | reported => exact .inr ⟨hn,hp⟩
      | leave _ hw =>
        obtain rfl := Nat.succ.inj hn
        obtain rfl := Place.apart.inj hp
        exact .inl ⟨_,_,List.mem_cons_self,hw,rfl⟩
      | _ => cases hp

end Path
end Majordomo.Worker
