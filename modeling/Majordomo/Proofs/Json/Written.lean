import Majordomo.SessionMessage
import Mathlib.Logic.Function.Basic

/-! # What is written as JSON can be read

Every character is read back from its escape, so every text from its quotes. A session message
is a row of quoted members, and reading the row gives the message that was written.
-/
namespace Majordomo

theorem Text.Hex.value?_digit : ∀ n < 16, value? (digit 'a' n) = some n := by decide

namespace Json

/-! ## Strings -/

theorem unescape?_of_shortEscape? {c e : Char} (h : shortEscape? c = some e) :
    unescape? e = some c ∧ e ≠ 'u' := by
  unfold shortEscape? at h
  split at h <;> cases h <;> decide

/-- The numeric escape of a control character. -/
theorem pieceOf?_of_lt {c : Char} (h : c.toNat < 0x20) :
    pieceOf? '0' '0' (Text.Hex.digit 'a' (c.toNat / 16)) (Text.Hex.digit 'a' (c.toNat % 16)) =
      some (.char c) := by
  have hz : Text.Hex.value? '0' = some 0 := by decide
  have hh := Text.Hex.value?_digit (c.toNat / 16) (by omega)
  have hl := Text.Hex.value?_digit (c.toNat % 16) (by omega)
  have hn : ((0 * 16 + 0) * 16 + c.toNat / 16) * 16 + c.toNat % 16 = c.toNat := by omega
  have hs : ¬ (0xD800 ≤ c.toNat ∧ c.toNat < 0xE000) := by omega
  simp only [pieceOf?, hz, hh, hl, Option.bind_eq_bind, Option.bind_some, hn, if_neg hs,
    Char.ofNat_toNat, Option.pure_def]

/-- A character that is not escaped does not end the string. -/
theorem string?_cons_of_shortEscape?_eq_none {c : Char} (hs : shortEscape? c = none)
    (hc : ¬ c.toNat < 0x20) (rest : List Char) :
    string? (c :: rest) = (string? rest).map fun (pieces,rest) => (.char c :: pieces,rest) := by
  have hq : c ≠ '"' := by
    rintro rfl
    cases hs
  have hb : c ≠ '\\' := by
    rintro rfl
    cases hs
  rw [string?]
  · rw [if_neg (not_or.mpr ⟨hc,hb⟩)]
  · exact fun h => hq h
  · exact fun _ _ _ _ _ h _ => hb h
  · exact fun _ _ h _ => hb h

theorem string?_escape (c : Char) (rest : List Char) :
    string? (escape c ++ rest) =
      (string? rest).map fun (pieces,rest) => (.char c :: pieces,rest) := by
  unfold escape
  cases hs : shortEscape? c with
  | some e =>
    obtain ⟨hu,hne⟩ := unescape?_of_shortEscape? hs
    simp only [List.cons_append, List.nil_append]
    rw [string?]
    · rw [hu]
      cases string? rest <;> rfl
    · exact fun _ _ _ _ _ h _ => hne h
  | none =>
    dsimp only
    split
    · rename_i hc
      simp only [List.cons_append, List.nil_append]
      rw [string?, pieceOf?_of_lt hc]
      cases string? rest <;> rfl
    · rename_i hc
      exact string?_cons_of_shortEscape?_eq_none hs hc rest

/-- The pieces of a text without halves of surrogate pairs. -/
def pieces (s : List Char) : List Piece := s.map .char

theorem textOf?_pieces (s : List Char) : textOf? (pieces s) = some s := by
  induction s with
  | nil => rfl
  | cons c s ih =>
    change (textOf? (pieces s)).map (c :: ·) = some (c :: s)
    rw [ih, Option.map_some]

theorem string?_quoted (s rest : List Char) :
    string? (s.flatMap escape ++ '"' :: rest) = some (pieces s,rest) := by
  induction s with
  | nil => simp [string?, pieces]
  | cons c s ih =>
    rw [List.flatMap_cons, List.append_assoc, string?_escape, ih]
    rfl

/-! ## Tokens -/

theorem tokens?_of_token? {c : Char} {t : Token} {cs rest : List Char} (hb : isBlank c = false)
    (h : token? c cs = some (t,rest)) : tokens? (c :: cs) = (tokens? rest).map (t :: ·) := by
  rw [tokens?, if_neg (by simp [hb])]
  split
  · rename_i t' rest' h'
    obtain ⟨rfl,rfl⟩ := Prod.mk.inj (Option.some.inj (h'.symm.trans h))
    rfl
  · rename_i h'
    rw [h'] at h
    cases h

theorem tokens?_punctuation {c : Char} {t : Token} (hb : isBlank c = false)
    (h : punctuation? c = some t) (cs : List Char) :
    tokens? (c :: cs) = (tokens? cs).map (t :: ·) :=
  tokens?_of_token? hb (by simp only [token?, h])

theorem tokens?_quote (s rest : List Char) :
    tokens? (quote s ++ rest) = (tokens? rest).map (.string (pieces s) :: ·) := by
  have hq : quote s ++ rest = '"' :: (s.flatMap escape ++ '"' :: rest) := by simp [quote]
  have ht : token? '"' (s.flatMap escape ++ '"' :: rest) = some (.string (pieces s),rest) := by
    have hp : punctuation? '"' = none := by decide
    simp only [token?, hp, if_true, string?_quoted, Option.map_some]
  rw [hq]
  exact tokens?_of_token? (by decide) ht

end Json

namespace SessionMessage
open Json (Token tokens? pieces tokens?_quote tokens?_punctuation textOf?_pieces)

/-! ## Members -/

def memberTokens (name value : String) : List Token :=
  [.string (pieces name.toList),.colon,.string (pieces value.toList)]

theorem tokens?_memberText (name value : String) (rest : List Char) :
    tokens? (memberText name value ++ rest) =
      (tokens? rest).map (memberTokens name value ++ ·) := by
  have hm : memberText name value ++ rest =
      Json.quote name.toList ++ (':' :: (Json.quote value.toList ++ rest)) := by
    simp [memberText]
  have hc (cs : List Char) : tokens? (':' :: cs) = (tokens? cs).map (.colon :: ·) :=
    tokens?_punctuation (by decide) (by decide) cs
  rw [hm, tokens?_quote, hc, tokens?_quote]
  simp only [Option.map_map]
  rfl

/-- Members between commas. -/
theorem tokens?_members (name value : String) (members : List (String × String))
    (rest : List Char) :
    tokens? ([','].intercalate (((name,value) :: members).map fun p => memberText p.1 p.2) ++
        rest) =
      (tokens? rest).map ([Token.comma].intercalate
        (((name,value) :: members).map fun p => memberTokens p.1 p.2) ++ ·) := by
  induction members generalizing name value with
  | nil => simpa [List.intercalate] using tokens?_memberText name value rest
  | cons p members ih =>
    have hc (cs : List Char) : tokens? (',' :: cs) = (tokens? cs).map (.comma :: ·) :=
      tokens?_punctuation (by decide) (by decide) cs
    have hp := ih p.1 p.2
    simp only [List.map_cons, List.intercalate_cons_cons, List.append_assoc, List.cons_append,
      List.nil_append, tokens?_memberText, hc] at hp ⊢
    rw [hp]
    simp only [Option.map_map]
    rfl

theorem text?_pieces (value : String) (rest : List Token) :
    text? (.string (pieces value.toList) :: rest) = some (value,rest) := by
  simp [text?, textOf?_pieces]

theorem textOrNull?_pieces (value : String) (rest : List Token) :
    textOrNull? (.string (pieces value.toList) :: rest) = some (some value,rest) := by
  simp [textOrNull?, text?_pieces]

/-- Whether no value can be read for the member `name` any more: it has one, or it is none of the
members of a message. -/
def Members.isFull (name : String) (m : Members) : Bool :=
  if name = "requestType" then m.requestType.isSome
  else if name = "sessionId" then m.sessionId.isSome
  else if name = "url" then m.url.isSome
  else if name = "payload" then m.payload.isSome
  else if name = "messageId" then m.messageId.isSome
  else true

def Members.put (name value : String) (m : Members) : Members :=
  if name = "requestType" then { m with requestType := some value }
  else if name = "sessionId" then { m with sessionId := some value }
  else if name = "url" then { m with url := some value }
  else if name = "payload" then { m with payload := some value }
  else if name = "messageId" then { m with messageId := some (some value) }
  else m

section
variable {name : String} {m m' : Members} {ts rest : List Token}

theorem isFull_put {other : String} (hne : name ≠ other) (value : String)
    (ho : m.isFull other = false) : (m.put name value).isFull other = false := by
  unfold Members.isFull at ho ⊢
  unfold Members.put
  grind

theorem member?_of_not_isFull (h : m.isFull name = false) (value : String) (rest : List Token) :
    member? name m (.string (pieces value.toList) :: rest) = some (m.put name value,rest) := by
  unfold Members.isFull at h
  unfold member? Members.put once?
  repeat' split at h
  all_goals simp_all [text?_pieces, textOrNull?_pieces]

theorem members?_comma (h : member? name m ts = some (m',.comma :: rest)) :
    members? m (.string (pieces name.toList) :: .colon :: ts) = members? m' rest := by
  rw [members?, textOf?_pieces]
  dsimp only
  rw [String.ofList_toList]
  split
  · rename_i h'
    obtain ⟨rfl,hr⟩ := Prod.mk.inj (Option.some.inj (h'.symm.trans h))
    rw [(List.cons.inj hr).2]
  · rename_i h'
    cases h'.symm.trans h
  · rename_i hn _
    exact absurd h (hn _ _)

theorem members?_closeObject (h : member? name m ts = some (m',.closeObject :: rest)) :
    members? m (.string (pieces name.toList) :: .colon :: ts) = some (m',rest) := by
  rw [members?, textOf?_pieces]
  dsimp only
  rw [String.ofList_toList]
  split
  · rename_i h'
    cases h'.symm.trans h
  · rename_i h'
    obtain ⟨rfl,hr⟩ := Prod.mk.inj (Option.some.inj (h'.symm.trans h))
    rw [(List.cons.inj hr).2]
  · rename_i hn
    exact absurd h (hn _ _)

end

/-- Reading takes the members one after the other, each for the first time. -/
theorem members?_row (name value : String) (members : List (String × String)) (m : Members)
    (hn : (((name,value) :: members).map (·.1)).Nodup)
    (hf : ∀ p ∈ (name,value) :: members, m.isFull p.1 = false) :
    members? m ([Token.comma].intercalate
        (((name,value) :: members).map fun p => memberTokens p.1 p.2) ++ [.closeObject]) =
      some (((name,value) :: members).foldl (fun m p => m.put p.1 p.2) m,[]) := by
  have hm (rest : List Token) := member?_of_not_isFull (hf _ (List.mem_cons_self ..)) value rest
  induction members generalizing name value m with
  | nil => exact members?_closeObject (hm _)
  | cons p members ih =>
    obtain ⟨hname,hn⟩ := List.nodup_cons.mp hn
    have hf' : ∀ q ∈ p :: members, (m.put name value).isFull q.1 = false := fun q hq =>
      isFull_put (fun e => hname (List.mem_map.mpr ⟨q,hq,e.symm⟩)) value
        (hf q (List.mem_cons_of_mem _ hq))
    simp only [List.map_cons, List.intercalate_cons_cons, memberTokens, List.cons_append,
      List.nil_append]
    rw [members?_comma (hm _)]
    exact ih p.1 p.2 (m.put name value) hn hf'
      fun rest => member?_of_not_isFull (hf' _ (List.mem_cons_self ..)) p.2 rest

/-! ## Messages -/

def members (m : SessionMessage) : List (String × String) :=
  [("requestType",m.requestType),("sessionId",m.sessionId),("url",m.url),("payload",m.payload)] ++
    (m.messageId.map (("messageId",·))).toList

theorem toList_toJson (m : SessionMessage) :
    m.toJson.toList =
      '\x7b' :: ([','].intercalate (m.members.map fun p => memberText p.1 p.2) ++ ['\x7d']) := by
  unfold toJson members
  cases m.messageId <;> simp

theorem tokens?_toJson (m : SessionMessage) :
    tokens? m.toJson.toList =
      some (.openObject :: ([Token.comma].intercalate
        (m.members.map fun p => memberTokens p.1 p.2) ++ [.closeObject])) := by
  have ho (cs : List Char) : tokens? ('\x7b' :: cs) = (tokens? cs).map (.openObject :: ·) :=
    tokens?_punctuation (by decide) (by decide) cs
  have hc : tokens? ['\x7d'] = some [.closeObject] := by
    rw [tokens?_punctuation (t := .closeObject) (by decide) (by decide), tokens?, Option.map_some]
  rw [toList_toJson, ho, members, List.cons_append, tokens?_members, hc, Option.map_some,
    Option.map_some]

theorem members?_written (m : SessionMessage) :
    members? {} ([Token.comma].intercalate (m.members.map fun p => memberTokens p.1 p.2) ++
        [.closeObject]) =
      some ({ requestType := some m.requestType, sessionId := some m.sessionId, url := some m.url,
              payload := some m.payload, messageId := m.messageId.map some },[]) := by
  have hn : (m.members.map (·.1)).Nodup := by
    unfold members
    cases m.messageId <;> simp
  have hf : ∀ p ∈ m.members, Members.isFull p.1 {} = false := by
    unfold members
    cases m.messageId <;> simp [Members.isFull]
  unfold members at hn hf ⊢
  rw [List.cons_append] at hn hf ⊢
  rw [members?_row _ _ _ _ hn hf]
  cases m.messageId <;> simp [Members.put]

/-- The first token inside is a name. -/
theorem exists_row (m : SessionMessage) :
    ∃ t ts, [Token.comma].intercalate (m.members.map fun p => memberTokens p.1 p.2) ++
      [.closeObject] = .string t :: ts := by
  unfold members
  simp [memberTokens, List.intercalate]

/-- What was written is read back. -/
theorem ofJson_toJson (m : SessionMessage) : ofJson m.toJson = .ok m := by
  have hr := m.members?_written
  obtain ⟨t,ts,hts⟩ := m.exists_row
  have ht : ofTokens? (.openObject :: .string t :: ts) = some m := by
    rw [hts] at hr
    simp only [ofTokens?, hr, Members.message?]
    cases m with
    | mk requestType sessionId url payload messageId => cases messageId <;> rfl
  rw [ofJson, tokens?_toJson, hts, Option.bind_some, ht]

/-- Every session message survives being written and read, so different messages are written
differently; and a message that was read, in whatever form, is read again from what is written
of it. -/
theorem session_messages_survive :
    (∀ m, ofJson (toJson m) = .ok m) ∧ Function.Injective toJson ∧
      ∀ s m, ofJson s = .ok m → ofJson m.toJson = .ok m := by
  refine ⟨ofJson_toJson,fun m m' h => ?_,fun _ m _ => ofJson_toJson m⟩
  have hm : (.ok m : Except Fault SessionMessage) = .ok m' := by
    rw [← ofJson_toJson m, h, ofJson_toJson m']
  exact Except.ok.inj hm

end SessionMessage
end Majordomo
