import Privahub.Lib.JsonRead

/-!
# What is parsed can be written

A tree that comes from a text has literals that can be written (`Wf`), and is nowhere deeper than the scanner goes, so that
`render` gives a text of it that is read back (`parse_render_of_parse`): what `json.Compact` makes of the text.
-/

namespace Json

variable {b : UInt8} {ts us : List Token} {fs : List Frame} {p p' : Parser} {t : Token} {v : Json}

def Lex.NumOK : Lex → Prop
  | .num st acc => lexRun .idle acc.reverse = some (.num st acc, []) ∧ ∀ b ∈ acc, 32 ≤ b
  | .word _ tok => ∀ lit, tok ≠ .num lit
  | _ => True

/-- The number tokens among `ts` are well-formed literals. -/
def NumToks (ts : List Token) : Prop := ∀ lit, Token.num lit ∈ ts → NumLit lit

theorem numStep_visible : ∀ n < 256, (∃ st ∈ [NumState.neg, .zero, .int, .dot, .frac, .exp, .expSign, .expDigits], (numStep st (UInt8.ofNat n)).isSome) →
    32 ≤ UInt8.ofNat n := by decide +kernel

theorem le_of_numStep {st st' : NumState} (h : numStep st b = some st') : 32 ≤ b := by
  have hb := numStep_visible b.toNat b.toNat_lt ⟨st, by cases st <;> simp, by rw [UInt8.ofNat_toNat, h]; rfl⟩
  rwa [UInt8.ofNat_toNat] at hb

theorem numLit_of_final {st : NumState} {acc : Bytes} (h : (Lex.num st acc).NumOK) (hf : st.final = true) : NumLit acc.reverse := by
  refine ⟨?_, fun b hb => h.2 b (List.mem_reverse.1 hb)⟩
  rw [tokens, h.1]
  simp [Lex.finish, hf]

def opensNum (b : UInt8) (r : Lex × List Token) : Bool :=
  (match r.1 with
    | .num _ acc => decide (acc = [b] ∧ 32 ≤ b ∧ r.2 = [])
    | .word _ tok => match tok with
      | .num _ => false
      | _ => true
    | _ => true) &&
  r.2.all fun t => match t with
    | .num _ => false
    | _ => true

theorem idle_opensNum : ∀ n < 256, (idleStep (UInt8.ofNat n)).all (opensNum (UInt8.ofNat n)) = true := by decide +kernel

theorem idleStep_numOK {r : Lex × List Token} (h : idleStep b = some r) : r.1.NumOK ∧ NumToks r.2 := by
  have hb := idle_opensNum b.toNat b.toNat_lt
  rw [UInt8.ofNat_toNat, h, Option.all_some, opensNum, Bool.and_eq_true, List.all_eq_true] at hb
  obtain ⟨hlex, htoks⟩ := hb
  refine ⟨?_, fun lit hl => by have := htoks _ hl; cases this⟩
  obtain ⟨st, us⟩ := r
  cases st with
  | num st acc =>
    obtain ⟨rfl, hvis, rfl⟩ := of_decide_eq_true hlex
    refine ⟨?_, by simpa using hvis⟩
    rw [List.reverse_singleton, lexRun, lexStep, h]
    rfl
  | word left tok =>
    intro lit hlit
    simp only [hlit] at hlex
    cases hlex
  | _ => trivial

theorem lexStep_numOK {st : Lex} {r : Lex × List Token} (hst : st.NumOK) (h : lexStep st b = some r) : r.1.NumOK ∧ NumToks r.2 := by
  have hnone : NumToks [] := fun _ h => by cases h
  cases lexStep_cases h with
  | idle h => exact idleStep_numOK h
  | close => exact ⟨trivial, fun lit hl => by simp at hl⟩
  | str => exact ⟨trivial, hnone⟩
  | num hs =>
    refine ⟨⟨?_, ?_⟩, hnone⟩
    · rw [List.reverse_cons, lexRun_append, hst.1]
      simp [lexRun, lexStep, hs]
    · exact List.forall_mem_cons.2 ⟨le_of_numStep hs, hst.2⟩
  | number _ hf hx =>
    obtain ⟨hlex, htoks⟩ := idleStep_numOK hx
    refine ⟨hlex, fun lit hl => ?_⟩
    rcases List.mem_cons.1 hl with hl | hl
    · obtain rfl := Token.num.inj hl
      exact numLit_of_final hst hf
    · exact htoks lit hl
  | word => exact ⟨trivial, fun lit hl => absurd (List.mem_singleton.1 hl).symm (hst lit)⟩
  | letter => exact ⟨hst, hnone⟩

theorem lexRun_numOK {st : Lex} {x : Bytes} {r : Lex × List Token} (hst : st.NumOK) (h : lexRun st x = some r) : r.1.NumOK ∧ NumToks r.2 := by
  obtain ⟨hend, htoks⟩ := lexRun_keeps (I := Lex.NumOK) (J := fun t => ∀ lit, t = .num lit → NumLit lit) (fun hst h => by
    obtain ⟨hst', htoks⟩ := lexStep_numOK hst h
    exact ⟨hst', fun t ht lit hl => htoks lit (hl ▸ ht)⟩) hst h
  exact ⟨hend, fun lit hl => htoks _ hl lit rfl⟩

theorem numLit_of_tokens {s : Bytes} (h : tokens s = some ts) : NumToks ts := by
  obtain ⟨⟨st, us⟩, hr, h⟩ := Option.bind_eq_some_iff.1 h
  obtain ⟨l, hl, rfl⟩ := Option.map_eq_some_iff.1 h
  have hidle : Lex.idle.NumOK := trivial
  obtain ⟨hlex, htoks⟩ := lexRun_numOK hidle hr
  have hlast : NumToks l := by
    intro lit hm
    cases st with
    | idle =>
      obtain rfl := Option.some.inj hl
      cases hm
    | num st acc =>
      simp only [Lex.finish] at hl
      split_ifs at hl with hf
      obtain rfl := Option.some.inj hl
      obtain rfl := Token.num.inj (List.mem_singleton.1 hm)
      exact numLit_of_final hlex hf
    | _ => cases hl
  exact fun lit hm => (List.mem_append.1 hm).elim (htoks lit) (hlast lit)

theorem tree_induction {P : Json → Prop} (null : P .null) (bool : ∀ b, P (.bool b)) (num : ∀ lit, P (.num lit))
    (str : ∀ lit, P (.str lit)) (arr : ∀ vs, (∀ v ∈ vs, P v) → P (.arr vs)) (obj : ∀ ms, (∀ m ∈ ms, P m.2) → P (.obj ms)) (v : Json) : P v :=
  @Json.rec P (fun vs => ∀ v ∈ vs, P v) (fun ms => ∀ m ∈ ms, P m.2) (fun m => P m.2) null bool num str arr obj
    (fun _ h => absurd h List.not_mem_nil) (fun _ _ hv hvs => List.forall_mem_cons.2 ⟨hv, hvs⟩)
    (fun _ h => absurd h List.not_mem_nil) (fun _ _ hm hms => List.forall_mem_cons.2 ⟨hm, hms⟩) (fun _ _ hv => hv) v

/-- A tree that can be written below `k` containers. -/
structure Fits (k : Nat) (v : Json) : Prop where
  wf : Wf v
  depth : k + v.depth ≤ maxNestingDepth

def StackOK : List Frame → Prop
  | [] => True
  | .arr done :: fs => fs.length < maxNestingDepth ∧ (∀ v ∈ done, Fits (fs.length + 1) v) ∧ StackOK fs
  | .obj done key :: fs => fs.length < maxNestingDepth ∧ (∀ m ∈ done, StrLit m.1 ∧ Fits (fs.length + 1) m.2) ∧ StrLit key ∧ StackOK fs

def Parser.OK (p : Parser) : Prop :=
  StackOK p.stack ∧ match p.wait with
    | .eof v => Fits 0 v
    | _ => True

def Token.OK : Token → Prop
  | .str lit => StrLit lit
  | .num lit => NumLit lit
  | _ => True

theorem wfItems_iff (vs : List Json) : WfItems vs ↔ ∀ v ∈ vs, Wf v := by
  induction vs with
  | nil => simp [WfItems]
  | cons v vs ih => simp [WfItems, ih]

theorem depthItems_le {vs : List Json} {n : Nat} : depthItems vs ≤ n ↔ ∀ v ∈ vs, depth v ≤ n := by
  induction vs with
  | nil => simp [depthItems]
  | cons v vs ih => simp [depthItems, ih]

theorem depthMembers_le {ms : List (Bytes × Json)} {n : Nat} : depthMembers ms ≤ n ↔ ∀ m ∈ ms, depth m.2 ≤ n := by
  induction ms with
  | nil => simp [depthMembers]
  | cons m ms ih =>
    obtain ⟨k, v⟩ := m
    simp [depthMembers, ih]

theorem ok_complete (h : StackOK fs) (hv : Fits fs.length v) : (Parser.complete fs v).OK := by
  cases fs with
  | nil => exact ⟨trivial, hv⟩
  | cons f fs =>
    cases f with
    | arr done => exact ⟨⟨h.1, List.forall_mem_cons.2 ⟨hv, h.2.1⟩, h.2.2⟩, trivial⟩
    | obj done key => exact ⟨⟨h.1, List.forall_mem_cons.2 ⟨⟨h.2.2.1, hv⟩, h.2.1⟩, h.2.2⟩, trivial⟩

theorem ok_push {f : Frame} {w : Wait} (hf : fs.length < maxNestingDepth → StackOK (f :: fs)) (hw : ∀ v, w ≠ .eof v)
    (h : Parser.push fs f w = some p) : p.OK := by
  unfold Parser.push at h
  split_ifs at h with hlen
  obtain rfl := Option.some.inj h
  refine ⟨hf hlen, ?_⟩
  cases w with
  | eof v => exact absurd rfl (hw v)
  | _ => trivial

theorem ok_value (hfs : StackOK fs) (ht : t.OK) (hlen : fs.length ≤ maxNestingDepth) (h : Parser.value fs t = some p) : p.OK := by
  unfold Parser.value at h
  split at h
  · obtain rfl := Option.some.inj h
    exact ok_complete hfs ⟨trivial, hlen⟩
  · obtain rfl := Option.some.inj h
    exact ok_complete hfs ⟨trivial, hlen⟩
  · obtain rfl := Option.some.inj h
    exact ok_complete hfs ⟨ht, hlen⟩
  · obtain rfl := Option.some.inj h
    exact ok_complete hfs ⟨ht, hlen⟩
  · exact ok_push (f := .arr []) (fun hlt => ⟨hlt, (fun _ hv => absurd hv List.not_mem_nil), hfs⟩) (fun _ hw => by cases hw) h
  · exact ok_push (f := .obj [] []) (fun hlt => ⟨hlt, (fun _ hm => absurd hm List.not_mem_nil), rfl, hfs⟩) (fun _ hw => by cases hw) h
  · cases h

theorem stackOK_length (h : StackOK fs) : fs.length ≤ maxNestingDepth := by
  cases fs with
  | nil => exact Nat.zero_le _
  | cons f fs =>
    cases f with
    | arr done => exact h.1
    | obj done key => exact h.1

theorem ok_close (hfs : StackOK fs) (h : Parser.close fs t = some p) : p.OK := by
  unfold Parser.close at h
  split at h
  case _ done fs =>
    obtain rfl := Option.some.inj h
    obtain ⟨hlt, hdone, hfs⟩ := hfs
    have hdepth : depthItems done.reverse ≤ maxNestingDepth - (fs.length + 1) :=
      depthItems_le.2 fun v hv => by have := (hdone v (List.mem_reverse.1 hv)).depth; omega
    refine ok_complete hfs ⟨(wfItems_iff _).2 fun v hv => (hdone v (List.mem_reverse.1 hv)).wf, ?_⟩
    rw [Json.depth]
    omega
  case _ done key fs =>
    obtain rfl := Option.some.inj h
    obtain ⟨hlt, hdone, _, hfs⟩ := hfs
    have hdepth : depthMembers done.reverse ≤ maxNestingDepth - (fs.length + 1) :=
      depthMembers_le.2 fun m hm => by have := (hdone m (List.mem_reverse.1 hm)).2.depth; omega
    refine ok_complete hfs ⟨(wfMembers_iff _).2 fun m hm => ?_, ?_⟩
    · obtain ⟨hkey, hv⟩ := hdone m (List.mem_reverse.1 hm)
      exact ⟨hkey, hv.wf⟩
    · rw [Json.depth]
      omega
  · cases h

theorem ok_key {k : Bytes} (hfs : StackOK fs) (hk : StrLit k) (h : Parser.key fs k = some p) : p.OK := by
  unfold Parser.key at h
  split at h
  · obtain rfl := Option.some.inj h
    exact ⟨⟨hfs.1, hfs.2.1, hk, hfs.2.2.2⟩, trivial⟩
  · cases h

theorem ok_next (hfs : StackOK fs) (h : Parser.next fs = some p) : p.OK := by
  unfold Parser.next at h
  split at h
  · obtain rfl := Option.some.inj h
    exact ⟨hfs, trivial⟩
  · obtain rfl := Option.some.inj h
    exact ⟨hfs, trivial⟩
  · cases h

theorem ok_step (hp : p.OK) (ht : t.OK) (h : parseStep p t = some p') : p'.OK := by
  obtain ⟨stack, wait⟩ := p
  have hstack : StackOK stack := hp.1
  have hlen := stackOK_length hstack
  cases wait with
  | value => exact ok_value hstack ht hlen h
  | valueOrEnd =>
    simp only [parseStep] at h
    split_ifs at h
    · exact ok_close hstack h
    · exact ok_value hstack ht hlen h
  | keyOrEnd =>
    simp only [parseStep] at h
    split at h
    · exact ok_key hstack ht h
    · exact ok_close hstack h
    · cases h
  | key =>
    simp only [parseStep] at h
    split at h
    · exact ok_key hstack ht h
    · cases h
  | colon =>
    simp only [parseStep] at h
    split_ifs at h
    obtain rfl := Option.some.inj h
    exact ⟨hstack, trivial⟩
  | commaOrEnd =>
    simp only [parseStep] at h
    split_ifs at h
    · exact ok_next hstack h
    · exact ok_close hstack h
  | eof v => cases h

theorem ok_parseTokens (hp : p.OK) (hts : ∀ t ∈ ts, t.OK) (h : parseTokens p ts = some p') : p'.OK := by
  induction ts generalizing p with
  | nil =>
    obtain rfl := Option.some.inj h
    exact hp
  | cons t ts ih =>
    rw [parseTokens_cons] at h
    obtain ⟨q, hq, h⟩ := Option.bind_eq_some_iff.1 h
    exact ih (ok_step hp (hts t List.mem_cons_self) hq) (fun u hu => hts u (List.mem_cons_of_mem _ hu)) h

theorem fits_of_parse {s : Bytes} (h : parse s = some v) : Fits 0 v := by
  simp only [parse, Option.bind_eq_bind, Option.bind_eq_some_iff] at h
  obtain ⟨ts, hts, p, hp, hv⟩ := h
  have hok : ∀ t ∈ ts, t.OK := by
    intro t ht
    cases t with
    | str lit => exact strLit_of_tokens hts lit ht
    | num lit => exact numLit_of_tokens hts lit ht
    | _ => trivial
  have hp := ok_parseTokens (p := ⟨[], .value⟩) ⟨trivial, trivial⟩ hok hp
  obtain ⟨stack, wait⟩ := p
  cases wait with
  | eof w =>
    obtain rfl := Option.some.inj hv
    exact hp.2
  | _ => cases hv

theorem parse_render_of_parse {s : Bytes} (h : parse s = some v) : parse (render v) = some v := by
  have hv := fits_of_parse h
  exact parse_render hv.wf (by simpa using hv.depth)

mutual

theorem parseTokens_deep : ∀ (v : Json) (stack : List Frame), stack.length ≤ maxNestingDepth →
    maxNestingDepth < stack.length + depth v → parseTokens ⟨stack, .value⟩ (toks v) = none
  | .null, _, hs, h => by simp only [depth] at h; omega
  | .bool _, _, hs, h => by simp only [depth] at h; omega
  | .num _, _, hs, h => by simp only [depth] at h; omega
  | .str _, _, hs, h => by simp only [depth] at h; omega
  | .arr items, stack, hs, h => by
    rw [depth] at h
    rw [toks, List.cons_append, parseTokens_cons]
    by_cases hlt : stack.length < maxNestingDepth
    · have hopen : parseStep ⟨stack, .value⟩ .lbrack = some ⟨.arr [] :: stack, .valueOrEnd⟩ := by
        simp [parseStep, Parser.value, Parser.push, hlt]
      rcases items with _ | ⟨v, vs⟩
      · simp only [depthItems] at h; omega
      · rw [hopen, Option.bind_some, parseTokens_firstItem, parseTokens_append, items_deep (v :: vs) [] stack hlt (by omega), Option.bind_none]
    · have hopen : parseStep ⟨stack, .value⟩ .lbrack = none := by simp [parseStep, Parser.value, Parser.push, hlt]
      rw [hopen, Option.bind_none]
  | .obj ms, stack, hs, h => by
    rw [depth] at h
    rw [toks, List.cons_append, parseTokens_cons]
    by_cases hlt : stack.length < maxNestingDepth
    · have hopen : parseStep ⟨stack, .value⟩ .lbrace = some ⟨.obj [] [] :: stack, .keyOrEnd⟩ := by
        simp [parseStep, Parser.value, Parser.push, hlt]
      rcases ms with _ | ⟨m, ms⟩
      · simp only [depthMembers] at h; omega
      · rw [hopen, Option.bind_some, parseTokens_firstMember, parseTokens_append, members_deep (m :: ms) [] [] stack hlt (by omega),
          Option.bind_none]
    · have hopen : parseStep ⟨stack, .value⟩ .lbrace = none := by simp [parseStep, Parser.value, Parser.push, hlt]
      rw [hopen, Option.bind_none]

theorem items_deep : ∀ (vs done : List Json) (stack : List Frame), stack.length < maxNestingDepth →
    maxNestingDepth < stack.length + 1 + depthItems vs →
    parseTokens ⟨.arr done :: stack, .value⟩ (List.intercalate [.comma] (toksItems vs)) = none
  | [], _, _, hs, h => by simp only [depthItems] at h; omega
  | [v], done, stack, hs, h => by
    simp only [depthItems] at h
    rw [toksItems, toksItems, List.intercalate_singleton]
    exact parseTokens_deep v (.arr done :: stack) (by simp only [List.length_cons]; omega) (by simp only [List.length_cons]; omega)
  | v :: u :: vs, done, stack, hs, h => by
    rw [depthItems] at h
    rw [toksItems, toksItems, List.intercalate_cons_cons, List.append_assoc, ← toksItems, parseTokens_append]
    by_cases hv : stack.length + 1 + depth v ≤ maxNestingDepth
    · rw [parseTokens_toks v (.arr done :: stack) (by simp only [List.length_cons]; omega), Option.bind_some, List.singleton_append,
        parseTokens_cons]
      exact items_deep (u :: vs) (v :: done) stack hs (by omega)
    · rw [parseTokens_deep v (.arr done :: stack) (by simp only [List.length_cons]; omega) (by simp only [List.length_cons]; omega),
        Option.bind_none]

theorem members_deep : ∀ (ms done : List (Bytes × Json)) (k₀ : Bytes) (stack : List Frame), stack.length < maxNestingDepth →
    maxNestingDepth < stack.length + 1 + depthMembers ms →
    parseTokens ⟨.obj done k₀ :: stack, .key⟩ (List.intercalate [.comma] (toksMembers ms)) = none
  | [], _, _, _, hs, h => by simp only [depthMembers] at h; omega
  | [(k, v)], done, k₀, stack, hs, h => by
    simp only [depthMembers] at h
    rw [toksMembers, toksMembers, List.intercalate_singleton, parseTokens_cons, parseStep]
    simp only [Parser.key, Option.bind_some, parseTokens_cons, parseStep, if_true]
    exact parseTokens_deep v (.obj done k :: stack) (by simp only [List.length_cons]; omega) (by simp only [List.length_cons]; omega)
  | (k, v) :: (k₁, u) :: ms, done, k₀, stack, hs, h => by
    rw [depthMembers] at h
    rw [toksMembers, toksMembers, List.intercalate_cons_cons, List.append_assoc, List.cons_append, List.cons_append, ← toksMembers,
      parseTokens_cons, parseStep]
    simp only [Parser.key, Option.bind_some, parseTokens_cons, parseStep, if_true, parseTokens_append]
    by_cases hv : stack.length + 1 + depth v ≤ maxNestingDepth
    · rw [parseTokens_toks v (.obj done k :: stack) (by simp only [List.length_cons]; omega), Option.bind_some]
      exact members_deep ((k₁, u) :: ms) ((k, v) :: done) k stack hs (by omega)
    · rw [parseTokens_deep v (.obj done k :: stack) (by simp only [List.length_cons]; omega) (by simp only [List.length_cons]; omega),
        Option.bind_none]

end

theorem parseTokens_toks_iff {v : Json} {p : Parser} :
    parseTokens ⟨[], .value⟩ (toks v) = some p ↔ depth v ≤ maxNestingDepth ∧ p = ⟨[], .eof v⟩ := by
  by_cases h : depth v ≤ maxNestingDepth
  · rw [parseTokens_toks v [] (by simpa using h), Option.some.injEq, eq_comm]
    simp [h, Parser.complete]
  · rw [parseTokens_deep v [] (by simp) (by simpa using h)]
    simp [h]

end Json
