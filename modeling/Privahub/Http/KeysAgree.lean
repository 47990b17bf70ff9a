import Privahub.Http.JsonKeys

/-!
# The texts `CheckJSONKeys` accepts

The scan has no grammar beyond the decoder's syntax state and the depth of its own stack. `Taken` says
which tokens can have been read in a state; nothing else comes in between (`taken_step`), so a scan that
ends with no container open has read the tokens of one value.
-/

namespace Http

open Json

def waitState : List Frame → TokenState
  | [] => .topValue
  | .arr [] :: _ => .arrayStart
  | .arr (_ :: _) :: _ => .arrayValue
  | .obj .. :: _ => .objectValue

def savedStates : List Frame → List TokenState
  | [] => []
  | _ :: fs => waitState fs :: savedStates fs

inductive Taken : Decoder → Bool → List Token → Prop
  | value (fs) : Taken ⟨waitState fs, savedStates fs⟩ (!fs.isEmpty) (stackToks fs)
  | keyOrEnd (fs) : Taken ⟨.objectStart, waitState fs :: savedStates fs⟩ true (stackToks fs ++ [.lbrace])
  | key (fs) (done : List (Bytes × Json)) : Taken ⟨.objectKey, waitState fs :: savedStates fs⟩ true (stackToks fs ++ .lbrace :: opened (done.map memberToks))
  | colon (fs) (done : List (Bytes × Json)) (k) : Taken ⟨.objectColon, waitState fs :: savedStates fs⟩ true
      (stackToks fs ++ .lbrace :: opened (done.map memberToks) ++ [.str k])
  | arr (fs v done) : Taken ⟨.arrayComma, waitState fs :: savedStates fs⟩ true (stackToks fs ++ closedToks (.arr (v :: done)))
  | obj (fs m done) : Taken ⟨.objectComma, waitState fs :: savedStates fs⟩ true (stackToks fs ++ closedToks (.obj (m :: done) []))
  | eof (v) : Taken ⟨.topValue, []⟩ true (toks v)

variable {u : CaseTables} {fs : List Frame} {ts us text : List Token} {t : Token} {d d' : Decoder} {b : Bool} {i : Nat} {s s' : Scan}

theorem waitState_cases (fs : List Frame) :
    waitState fs = .topValue ∨ waitState fs = .arrayStart ∨ waitState fs = .arrayValue ∨ waitState fs = .objectValue := by
  match fs with
  | [] => exact .inl rfl
  | .arr [] :: _ => exact .inr (.inl rfl)
  | .arr (_ :: _) :: _ => exact .inr (.inr (.inl rfl))
  | .obj .. :: _ => exact .inr (.inr (.inr rfl))

theorem valueAllowed_waitState (fs : List Frame) (ds : List TokenState) : Decoder.valueAllowed ⟨waitState fs, ds⟩ = true := by
  rcases waitState_cases fs with h | h | h | h <;> rw [h] <;> rfl

theorem atKey_waitState (fs : List Frame) (ds : List TokenState) : Decoder.atKey ⟨waitState fs, ds⟩ = false := by
  rcases waitState_cases fs with h | h | h | h <;> rw [h] <;> rfl

theorem taken_complete (fs : List Frame) (v : Json) :
    Taken (Decoder.valueEnd ⟨waitState fs, savedStates fs⟩) true (stackToks fs ++ toks v) := by
  match fs with
  | [] => exact .eof v
  | .arr done :: fs =>
    have h : stackToks (.arr done :: fs) ++ toks v = stackToks fs ++ closedToks (.arr (v :: done)) := by
      simp [stackToks, Frame.toks, closedToks, intercalate_concat, opened]
    have hend : Decoder.valueEnd ⟨waitState (.arr done :: fs), savedStates (.arr done :: fs)⟩ = ⟨.arrayComma, waitState fs :: savedStates fs⟩ := by
      cases done <;> rfl
    rw [h, hend]
    exact .arr fs v done
  | .obj done key :: fs =>
    have h : stackToks (.obj done key :: fs) ++ toks v = stackToks fs ++ closedToks (.obj ((key, v) :: done) []) := by
      simp [stackToks, Frame.toks, closedToks, intercalate_concat, opened, memberToks]
    rw [h]
    exact .obj fs (key, v) done

theorem taken_value (hs : Decoder.token ⟨waitState fs, savedStates fs⟩ t = some d') (ht : t ≠ .rbrack) : Taken d' true (stackToks fs ++ [t]) := by
  have hall := valueAllowed_waitState fs (savedStates fs)
  have hkey := atKey_waitState fs (savedStates fs)
  cases t with
  | null =>
    simp only [Decoder.token, hall, if_true] at hs
    obtain rfl := Option.some.inj hs
    exact taken_complete fs .null
  | bool x =>
    simp only [Decoder.token, hall, if_true] at hs
    obtain rfl := Option.some.inj hs
    exact taken_complete fs (.bool x)
  | num lit =>
    simp only [Decoder.token, hall, if_true] at hs
    obtain rfl := Option.some.inj hs
    exact taken_complete fs (.num lit)
  | str lit =>
    simp only [Decoder.token, hall, hkey, if_true, Bool.false_eq_true, if_false] at hs
    obtain rfl := Option.some.inj hs
    exact taken_complete fs (.str lit)
  | lbrack =>
    simp only [Decoder.token, Decoder.openBracket, hall, if_true] at hs
    obtain rfl := Option.some.inj hs
    have h := Taken.value (.arr [] :: fs)
    simpa [stackToks, Frame.toks, opened, waitState, savedStates] using h
  | lbrace =>
    simp only [Decoder.token, Decoder.openBracket, hall, if_true] at hs
    obtain rfl := Option.some.inj hs
    exact .keyOrEnd fs
  | rbrack => exact absurd rfl ht
  | rbrace | comma | colon =>
    rcases waitState_cases fs with h | h | h | h <;> simp [Decoder.token, Decoder.closeBracket, h] at hs

theorem taken_rbrack {st : TokenState} (done : List Json) (hst : st = .arrayStart ∨ st = .arrayComma)
    (hs : Decoder.token ⟨st, waitState fs :: savedStates fs⟩ .rbrack = some d') :
    Taken d' true (stackToks fs ++ closedToks (.arr done) ++ [.rbrack]) := by
  simp only [Decoder.token, Decoder.closeBracket, hst, if_true] at hs
  obtain rfl := Option.some.inj hs
  rw [List.append_assoc, ← toks_arr_reverse]
  exact taken_complete fs _

theorem taken_rbrace {st : TokenState} (done : List (Bytes × Json)) (k : Bytes) (hst : st = .objectStart ∨ st = .objectComma)
    (hs : Decoder.token ⟨st, waitState fs :: savedStates fs⟩ .rbrace = some d') :
    Taken d' true (stackToks fs ++ closedToks (.obj done k) ++ [.rbrace]) := by
  simp only [Decoder.token, Decoder.closeBracket, hst, if_true] at hs
  obtain rfl := Option.some.inj hs
  rw [List.append_assoc, ← toks_obj_reverse]
  exact taken_complete fs _

theorem taken_step (h : Taken d b ts) (hs : d.token t = some d') (hopen : t = .comma ∨ t = .colon ∨ ¬ (b = true ∧ d.stack = [])) :
    Taken d' true (ts ++ [t]) := by
  cases h with
  | value fs =>
    by_cases ht : t = .rbrack
    · subst ht
      match fs, hs with
      | .arr [] :: fs, hs =>
        have h := taken_rbrack [] (.inl rfl) hs
        simpa [stackToks, Frame.toks, opened, closedToks] using h
    · exact taken_value hs ht
  | keyOrEnd fs =>
    cases t with
    | str k =>
      simp only [Decoder.token, Decoder.atKey] at hs
      obtain rfl := Option.some.inj hs
      have h := Taken.colon fs [] k
      simpa [opened] using h
    | rbrace => exact taken_rbrace [] [] (.inl rfl) hs
    | _ => simp [Decoder.token, Decoder.openBracket, Decoder.closeBracket, Decoder.valueAllowed] at hs
  | key fs done =>
    cases t with
    | str k =>
      simp only [Decoder.token, Decoder.atKey] at hs
      obtain rfl := Option.some.inj hs
      exact .colon fs done k
    | _ => simp [Decoder.token, Decoder.openBracket, Decoder.closeBracket, Decoder.valueAllowed] at hs
  | colon fs done k =>
    cases t with
    | colon =>
      simp only [Decoder.token, if_true] at hs
      obtain rfl := Option.some.inj hs
      have h := Taken.value (.obj done k :: fs)
      simpa [stackToks, Frame.toks, waitState, savedStates] using h
    | _ => simp [Decoder.token, Decoder.openBracket, Decoder.closeBracket, Decoder.valueAllowed, Decoder.atKey] at hs
  | arr fs v done =>
    cases t with
    | comma =>
      simp only [Decoder.token, if_true] at hs
      obtain rfl := Option.some.inj hs
      have h := Taken.value (.arr (v :: done) :: fs)
      simpa [stackToks, Frame.toks, closedToks, intercalate_concat, opened, waitState, savedStates] using h
    | rbrack => exact taken_rbrack (v :: done) (.inr rfl) hs
    | _ => simp [Decoder.token, Decoder.openBracket, Decoder.closeBracket, Decoder.valueAllowed, Decoder.atKey] at hs
  | obj fs m done =>
    cases t with
    | comma =>
      simp [Decoder.token] at hs
      obtain rfl := hs
      have h := Taken.key fs (m :: done)
      simpa [closedToks, intercalate_concat, opened] using h
    | rbrace => exact taken_rbrace (m :: done) [] (.inr rfl) hs
    | _ => simp [Decoder.token, Decoder.openBracket, Decoder.closeBracket, Decoder.valueAllowed, Decoder.atKey] at hs
  | eof v =>
    rcases hopen with rfl | rfl | ho
    · simp [Decoder.token] at hs
    · simp [Decoder.token] at hs
    · exact absurd ⟨rfl, rfl⟩ ho

theorem started_of_separator (h : Taken d b ts) (hs : d.token t = some d') (ht : t = .comma ∨ t = .colon) : b = true := by
  cases h with
  | value fs =>
    rcases ht with rfl | rfl <;> rcases waitState_cases fs with h | h | h | h <;> simp [Decoder.token, h] at hs
  | _ => rfl

theorem toks_of_taken (h : Taken d b ts) (hb : b = true) (hd : d.stack = []) : ∃ v, ts = toks v := by
  cases h with
  | value fs =>
    match fs with
    | [] => cases hb
    | _ :: _ => cases hd
  | eof v => exact ⟨v, rfl⟩
  | _ => cases hd

structure Reading (s : Scan) (ts : List Token) : Prop where
  taken : Taken s.dec s.started ts
  level : s.stack.length = s.dec.stack.length

theorem valueDone_dec (s : Scan) (stop : Nat) : (s.valueDone text stop).dec = s.dec := by
  unfold Scan.valueDone
  split
  · rfl
  · split_ifs <;> rfl

theorem valueDone_started (s : Scan) (stop : Nat) : (s.valueDone text stop).started = s.started := by
  unfold Scan.valueDone
  split
  · rfl
  · split_ifs <;> rfl

theorem valueDone_level (s : Scan) (stop : Nat) : (s.valueDone text stop).stack.length = s.stack.length := by
  unfold Scan.valueDone
  split
  · rfl
  · rename_i h
    split_ifs <;> simp [h]

theorem valueEnd_stack (d : Decoder) : d.valueEnd.stack = d.stack := by
  unfold Decoder.valueEnd
  split <;> rfl

theorem token_level (hs : d.token t = some d') : d'.stack.length = match t with
    | .lbrack | .lbrace => d.stack.length + 1
    | .rbrack | .rbrace => d.stack.tail.length
    | _ => d.stack.length := by
  have hclose : ∀ {a c : TokenState}, d.closeBracket a c = some d' → d'.stack.length = d.stack.tail.length := fun h => by
    unfold Decoder.closeBracket at h
    split_ifs at h
    split at h
    · cases h
    · rename_i st stack hst
      obtain rfl := Option.some.inj h
      rw [valueEnd_stack, hst]
      rfl
  have hopen : ∀ {a : TokenState}, d.openBracket a = some d' → d'.stack.length = d.stack.length + 1 := fun h => by
    unfold Decoder.openBracket at h
    split_ifs at h
    obtain rfl := Option.some.inj h
    rfl
  cases t with
  | lbrack | lbrace => exact hopen hs
  | rbrack | rbrace => exact hclose hs
  | comma =>
    simp only [Decoder.token] at hs
    split_ifs at hs <;> obtain rfl := Option.some.inj hs <;> rfl
  | colon =>
    simp only [Decoder.token] at hs
    split_ifs at hs
    obtain rfl := Option.some.inj hs
    rfl
  | str lit =>
    simp only [Decoder.token] at hs
    split_ifs at hs <;> obtain rfl := Option.some.inj hs
    · rfl
    · rw [valueEnd_stack]
  | null | bool | num =>
    simp only [Decoder.token] at hs
    split_ifs at hs
    obtain rfl := Option.some.inj hs
    rw [valueEnd_stack]

theorem scan_step_cases (h : s.step u text i t = some s') : ∃ d', s.dec.token t = some d' ∧ s'.dec = d' ∧
    (t = .comma ∨ t = .colon ∨ ¬ (s.started = true ∧ s.stack = [])) ∧
    (s'.started = true ∨ (t = .comma ∨ t = .colon) ∧ s'.started = s.started) ∧
    s'.stack.length = match t with
      | .lbrack | .lbrace => s.stack.length + 1
      | .rbrack | .rbrace => s.stack.tail.length
      | _ => s.stack.length := by
  unfold Scan.step at h
  split at h
  · cases h
  rename_i d' hd
  refine ⟨d', hd, ?_⟩
  split_ifs at h with hsep hopen
  · obtain rfl := Option.some.inj h
    refine ⟨rfl, hsep.imp_right .inl, .inr ⟨hsep, rfl⟩, ?_⟩
    rcases hsep with rfl | rfl <;> rfl
  · have hvalue : ∀ s₀ : Scan, s₀.dec = d' → s₀.started = true → s₀.stack.length = s.stack.length →
        (s₀.valueDone text i).dec = d' ∧ (t = .comma ∨ t = .colon ∨ ¬ (s.started = true ∧ s.stack = [])) ∧
          ((s₀.valueDone text i).started = true ∨ (t = .comma ∨ t = .colon) ∧ (s₀.valueDone text i).started = s.started) ∧
          (s₀.valueDone text i).stack.length = s.stack.length := fun s₀ h1 h2 h3 =>
      ⟨(valueDone_dec s₀ i).trans h1, .inr (.inr hopen), .inl ((valueDone_started s₀ i).trans h2), (valueDone_level s₀ i).trans h3⟩
    cases t with
    | lbrace | lbrack =>
      obtain rfl := Option.some.inj h
      exact ⟨rfl, .inr (.inr hopen), .inl rfl, rfl⟩
    | rbrace | rbrack =>
      obtain rfl := Option.some.inj h
      exact ⟨valueDone_dec _ i, .inr (.inr hopen), .inl (valueDone_started _ i), valueDone_level _ i⟩
    | str lit =>
      simp only at h
      split at h
      · rename_i hst
        split_ifs at h <;> obtain rfl := Option.some.inj h
        · exact ⟨rfl, .inr (.inr hopen), .inl rfl, by simp [hst]⟩
        · exact hvalue _ rfl rfl rfl
      · obtain rfl := Option.some.inj h
        exact hvalue _ rfl rfl rfl
    | comma => simp at hsep
    | colon => simp at hsep
    | null | bool | num =>
      obtain rfl := Option.some.inj h
      exact hvalue _ rfl rfl rfl

theorem reading_step (hr : Reading s ts) (h : s.step u text i t = some s') : Reading s' (ts ++ [t]) := by
  obtain ⟨d', hd, rfl, hopen, hstarted, hlevel⟩ := scan_step_cases h
  have hopen : t = .comma ∨ t = .colon ∨ ¬ (s.started = true ∧ s.dec.stack = []) := by
    refine hopen.imp_right (.imp_right fun hn hc => hn ⟨hc.1, ?_⟩)
    rw [← List.length_eq_zero_iff, hr.level, hc.2, List.length_nil]
  have hstart : s'.started = true := by
    rcases hstarted with h | ⟨hsep, he⟩
    · exact h
    · exact he.trans (started_of_separator hr.taken hd hsep)
  refine ⟨hstart ▸ taken_step hr.taken hd hopen, ?_⟩
  rw [hlevel, token_level hd]
  cases t <;> simp [hr.level]

theorem reading_run (hr : Reading s ts) (h : Scan.run u text i s us = some s') : Reading s' (ts ++ us) := by
  induction us generalizing s ts i with
  | nil =>
    obtain rfl := Option.some.inj h
    simpa using hr
  | cons t us ih =>
    rw [Scan.run_cons] at h
    obtain ⟨q, hq, h⟩ := Option.bind_eq_some_iff.1 h
    simpa using ih (reading_step hr hq) h

theorem toks_of_run (h : Scan.run u text 0 .init us = some s) (hs : s.started = true) (hst : s.stack = []) : ∃ v, us = toks v := by
  have hr : Reading s ([] ++ us) := reading_run ⟨Taken.value [], rfl⟩ h
  have hd : s.dec.stack = [] := List.length_eq_zero_iff.1 (by rw [← hr.level, hst, List.length_nil])
  exact toks_of_taken hr.taken hs hd

/-- A body is accepted exactly if it is one value in which, in every object at every depth, any two keys of one
canonical name have the same value after compaction. -/
theorem checkJSONKeys_ok_iff (body : Bytes) : CheckJSONKeys u body = .ok () ↔ ∃ v, tokens body = some (toks v) ∧ KeysAgree u v := by
  constructor
  · intro h
    obtain ⟨v, hv⟩ : ∃ v, tokens body = some (toks v) := by
      unfold CheckJSONKeys at h
      split at h
      · cases h
      rename_i text htext
      split at h
      · cases h
      rename_i s hs
      split_ifs at h with hend
      simp only [Bool.not_eq_true', not_or, Bool.not_eq_false, ne_eq, not_not] at hend
      obtain ⟨v, hv⟩ := toks_of_run hs hend.1 hend.2
      exact ⟨v, hv ▸ htext⟩
    exact ⟨v, hv, (checkJSONKeys_toks hv).1 h⟩
  · rintro ⟨v, hv, hk⟩
    exact (checkJSONKeys_toks hv).2 hk

end Http
