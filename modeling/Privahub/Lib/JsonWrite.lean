import Privahub.Lib.Json

/-!
# What the JSON reader makes of a written text

`render` writes a tree of literals without white space, as `json.Marshal` does. The reader gives the
same tree back (`parse_render`) when its literals are well formed (`Wf`) and it is not nested too
deep. `escape` writes a well-formed literal for every string, `unquote` reads back the string with
each invalid byte replaced (`unquote_escape`), and `itoa` is a well-formed number that reads back as
itself (`parseInt64_itoa`).
-/

namespace Json

theorem lexRun_append (st : Lex) (a b : Bytes) :
    lexRun st (a ++ b) = (lexRun st a).bind fun r => (lexRun r.1 b).map fun q => (q.1, r.2 ++ q.2) := by
  induction a generalizing st with
  | nil => simp [lexRun]
  | cons x a ih =>
    simp only [List.cons_append, lexRun, ih]
    rcases lexStep st x with _ | ⟨st', ts⟩
    · rfl
    · simp only [Option.bind_some]
      rcases lexRun st' a with _ | ⟨st'', us⟩
      · rfl
      · simp only [Option.bind_some, Option.map_some, Option.map_map]
        rcases lexRun st'' b with _ | q <;> simp

structure Delim (d : UInt8) (t : Token) : Prop where
  idle : idleStep d = some (.idle, [t])
  num : ∀ st, numStep st d = none

theorem delim_comma : Delim 44 .comma := ⟨by decide, fun st => by cases st <;> rfl⟩
theorem delim_colon : Delim 58 .colon := ⟨by decide, fun st => by cases st <;> rfl⟩
theorem delim_rbrace : Delim 125 .rbrace := ⟨by decide, fun st => by cases st <;> rfl⟩
theorem delim_rbrack : Delim 93 .rbrack := ⟨by decide, fun st => by cases st <;> rfl⟩
theorem delim_lbrace : Delim 123 .lbrace := ⟨by decide, fun st => by cases st <;> rfl⟩
theorem delim_lbrack : Delim 91 .lbrack := ⟨by decide, fun st => by cases st <;> rfl⟩

variable {d : UInt8} {t : Token} {a rest : Bytes} {ts : List Token}

theorem tokens_append (h : lexRun .idle a = some (.idle, ts)) : tokens (a ++ rest) = (tokens rest).map (ts ++ ·) := by
  simp only [tokens, lexRun_append, h, Option.bind_some]
  rcases lexRun .idle rest with _ | ⟨st, us⟩
  · rfl
  · simp only [Option.map_some, Option.bind_some, Option.map_map]
    congr 1
    funext x
    simp

theorem tokens_cons (hd : Delim d t) : tokens (d :: rest) = (tokens rest).map (t :: ·) := by
  have h : lexRun .idle [d] = some (.idle, [t]) := by simp [lexRun, lexStep, hd.idle]
  exact tokens_append h

theorem tokens_append_delim (ha : tokens a = some ts) (hd : Delim d t) :
    tokens (a ++ d :: rest) = (tokens rest).map fun us => ts ++ t :: us := by
  obtain ⟨⟨st, us⟩, hr, hf⟩ := Option.bind_eq_some_iff.1 ha
  obtain ⟨l, hl, rfl⟩ := Option.map_eq_some_iff.1 hf
  simp only at hl
  have hstep : lexStep st d = some (.idle, l ++ [t]) := by
    cases st with
    | idle => rw [← Option.some.inj hl]; exact hd.idle
    | num s acc =>
      simp only [Lex.finish] at hl
      split_ifs at hl with hfin
      rw [← Option.some.inj hl]
      simp [lexStep, hd.num, hfin, hd.idle]
    | _ => simp [Lex.finish] at hl
  have hrun : lexRun .idle (a ++ [d]) = some (.idle, us ++ (l ++ [t])) := by simp [lexRun_append, hr, lexRun, hstep]
  rw [List.append_cons, tokens_append hrun]
  simp

def strRun : StrState → Bytes → Option StrState
  | st, [] => some st
  | st, b :: t => if st = .plain ∧ b = 34 then none else (strStep st b).bind fun st => strRun st t

def StrLit (lit : Bytes) : Prop := strRun .plain lit = some .plain

instance (lit : Bytes) : Decidable (StrLit lit) := inferInstanceAs (Decidable (_ = _))

theorem strRun_append (st : StrState) (a b : Bytes) : strRun st (a ++ b) = (strRun st a).bind fun st => strRun st b := by
  induction a generalizing st with
  | nil => rfl
  | cons x a ih =>
    simp only [List.cons_append, strRun]
    split_ifs
    · rfl
    · rcases strStep st x with _ | st'
      · rfl
      · exact ih st'

theorem StrLit.append {a b : Bytes} (ha : StrLit a) (hb : StrLit b) : StrLit (a ++ b) := by
  rw [StrLit, strRun_append, ha]; exact hb

theorem lexRun_str {st st' : StrState} {lit : Bytes} (h : strRun st lit = some st') (acc : Bytes) :
    lexRun (.str st acc) lit = some (.str st' (lit.reverse ++ acc), []) := by
  induction lit generalizing st acc with
  | nil => obtain rfl := Option.some.inj h; rfl
  | cons b lit ih =>
    simp only [strRun] at h
    split_ifs at h with hq
    obtain ⟨s, hs, h⟩ := Option.bind_eq_some_iff.1 h
    have hstep : lexStep (.str st acc) b = some (.str s (b :: acc), []) := by
      cases st with
      | plain =>
        have hb : b ≠ 34 := fun hb => hq ⟨rfl, hb⟩
        simp [lexStep, hb, hs]
      | _ => simp [lexStep, hs]
    simp [lexRun, hstep, ih h]

theorem tokens_str {lit : Bytes} (h : StrLit lit) :
    tokens (34 :: lit ++ 34 :: rest) = (tokens rest).map (.str lit :: ·) := by
  have hclose : lexStep (.str .plain lit.reverse) 34 = some (.idle, [.str lit]) := by simp [lexStep]
  have hrun : lexRun .idle (34 :: lit ++ [34]) = some (.idle, [.str lit]) := by
    have hopen := lexRun_str h []
    rw [List.append_nil] at hopen
    rw [List.cons_append, lexRun, lexStep, show idleStep 34 = some (.str .plain [], []) from by decide]
    simp [lexRun_append, hopen, lexRun, hclose]
  rw [List.append_cons, tokens_append hrun]
  rfl

structure NumLit (lit : Bytes) : Prop where
  tokens : tokens lit = some [.num lit]
  visible : ∀ b ∈ lit, 32 ≤ b

instance (lit : Bytes) : Decidable (NumLit lit) :=
  decidable_of_iff (Json.tokens lit = some [.num lit] ∧ ∀ b ∈ lit, 32 ≤ b) ⟨fun h => ⟨h.1, h.2⟩, fun h => ⟨h.1, h.2⟩⟩

mutual

def render : Json → Bytes
  | .null => [110, 117, 108, 108]
  | .bool true => [116, 114, 117, 101]
  | .bool false => [102, 97, 108, 115, 101]
  | .num lit => lit
  | .str lit => 34 :: lit ++ [34]
  | .arr items => 91 :: List.intercalate [44] (renderItems items) ++ [93]
  | .obj ms => object (renderMembers ms)

def renderItems : List Json → List Bytes
  | [] => []
  | v :: vs => render v :: renderItems vs

def renderMembers : List (Bytes × Json) → List Bytes
  | [] => []
  | (k, v) :: ms => member k (render v) :: renderMembers ms

end

mutual

def Wf : Json → Prop
  | .num lit => NumLit lit
  | .str lit => StrLit lit
  | .arr items => WfItems items
  | .obj ms => WfMembers ms
  | _ => True

def WfItems : List Json → Prop
  | [] => True
  | v :: vs => Wf v ∧ WfItems vs

def WfMembers : List (Bytes × Json) → Prop
  | [] => True
  | (k, v) :: ms => StrLit k ∧ Wf v ∧ WfMembers ms

end

mutual

def depth : Json → Nat
  | .arr items => depthItems items + 1
  | .obj ms => depthMembers ms + 1
  | _ => 0

def depthItems : List Json → Nat
  | [] => 0
  | v :: vs => max (depth v) (depthItems vs)

def depthMembers : List (Bytes × Json) → Nat
  | [] => 0
  | (_, v) :: ms => max (depth v) (depthMembers ms)

end

theorem wfMembers_iff (ms : List (Bytes × Json)) : WfMembers ms ↔ ∀ m ∈ ms, StrLit m.1 ∧ Wf m.2 := by
  induction ms with
  | nil => simp [WfMembers]
  | cons m ms ih => obtain ⟨k, v⟩ := m; simp [WfMembers, ih, and_assoc]

theorem depth_obj {ms : List (Bytes × Json)} (h : ∀ m ∈ ms, depth m.2 = 0) : depth (.obj ms) = 1 := by
  have hms : depthMembers ms = 0 := by
    induction ms with
    | nil => rfl
    | cons m ms ih =>
      obtain ⟨k, v⟩ := m
      have hv : depth v = 0 := h _ List.mem_cons_self
      rw [depthMembers, hv, ih fun m hm => h m (List.mem_cons_of_mem _ hm)]
      rfl
  rw [depth, hms]

mutual

def toks : Json → List Token
  | .null => [.null]
  | .bool b => [.bool b]
  | .num lit => [.num lit]
  | .str lit => [.str lit]
  | .arr items => .lbrack :: List.intercalate [.comma] (toksItems items) ++ [.rbrack]
  | .obj ms => .lbrace :: List.intercalate [.comma] (toksMembers ms) ++ [.rbrace]

def toksItems : List Json → List (List Token)
  | [] => []
  | v :: vs => toks v :: toksItems vs

def toksMembers : List (Bytes × Json) → List (List Token)
  | [] => []
  | (k, v) :: ms => (.str k :: .colon :: toks v) :: toksMembers ms

end

theorem tokens_nil : tokens [] = some [] := rfl

theorem tokens_intercalate {ps : List Bytes} {tss : List (List Token)}
    (h : List.Forall₂ (fun p ts => tokens p = some ts) ps tss) (hd : Delim d t) :
    tokens (List.intercalate [44] ps ++ d :: rest) =
      (tokens rest).map fun us => List.intercalate [.comma] tss ++ t :: us := by
  induction h with
  | nil => exact tokens_cons hd
  | @cons p ts ps tss hp hps ih =>
    cases hps with
    | nil => simpa using tokens_append_delim hp hd
    | cons hq hqs =>
      rw [List.intercalate_cons_cons, List.intercalate_cons_cons, List.append_assoc, List.append_assoc,
        List.singleton_append, tokens_append_delim hp delim_comma, ih, Option.map_map]
      congr 1
      funext us
      simp

theorem tokens_member {k v : Bytes} (hk : StrLit k) (hv : tokens v = some ts) :
    tokens (member k v) = some (.str k :: .colon :: ts) := by
  have hm : member k v = 34 :: k ++ 34 :: 58 :: v := by simp [member]
  rw [hm, tokens_str hk, tokens_cons delim_colon, hv]; rfl

mutual

theorem tokens_render : ∀ v : Json, Wf v → tokens (render v) = some (toks v)
  | .null, _ => by decide
  | .bool true, _ => by decide
  | .bool false, _ => by decide
  | .num _, h => h.tokens
  | .str _, h => tokens_str h
  | .arr items, h => by
    rw [render, List.cons_append, tokens_cons delim_lbrack,
      tokens_intercalate (tokens_renderItems items h) delim_rbrack]
    simp [toks, tokens_nil]
  | .obj ms, h => by
    rw [render, object, List.cons_append, tokens_cons delim_lbrace,
      tokens_intercalate (tokens_renderMembers ms h) delim_rbrace]
    simp [toks, tokens_nil]

theorem tokens_renderItems : ∀ vs : List Json, WfItems vs →
    List.Forall₂ (fun p ts => tokens p = some ts) (renderItems vs) (toksItems vs)
  | [], _ => .nil
  | v :: vs, h => .cons (tokens_render v h.1) (tokens_renderItems vs h.2)

theorem tokens_renderMembers : ∀ ms : List (Bytes × Json), WfMembers ms →
    List.Forall₂ (fun p ts => tokens p = some ts) (renderMembers ms) (toksMembers ms)
  | [], _ => .nil
  | (_, v) :: ms, h => .cons (tokens_member h.1 (tokens_render v h.2.1)) (tokens_renderMembers ms h.2.2)

end

theorem parseTokens_cons (p : Parser) (t : Token) (ts : List Token) :
    parseTokens p (t :: ts) = (parseStep p t).bind fun p => parseTokens p ts := rfl

theorem parseTokens_append (p : Parser) (ts us : List Token) :
    parseTokens p (ts ++ us) = (parseTokens p ts).bind fun p => parseTokens p us := List.foldlM_append ..

theorem parseStep_valueOrEnd {stack : List Frame} (ht : t ≠ .rbrack) :
    parseStep ⟨stack, .valueOrEnd⟩ t = parseStep ⟨stack, .value⟩ t := by simp [parseStep, ht]

theorem exists_toks_cons (v : Json) : ∃ t ts, toks v = t :: ts ∧ t ≠ .rbrack := by
  cases v <;> exact ⟨_, _, rfl, by simp⟩

theorem parseTokens_firstItem (v : Json) (vs : List Json) (stack : List Frame) (us : List Token) :
    parseTokens ⟨.arr [] :: stack, .valueOrEnd⟩ (List.intercalate [.comma] (toksItems (v :: vs)) ++ us) =
      parseTokens ⟨.arr [] :: stack, .value⟩ (List.intercalate [.comma] (toksItems (v :: vs)) ++ us) := by
  obtain ⟨t, ts, hts, hne⟩ := exists_toks_cons v
  obtain ⟨ws, hws⟩ : ∃ ws, List.intercalate [.comma] (toksItems (v :: vs)) = t :: ws := by
    rw [toksItems, hts]
    cases toksItems vs with
    | nil => exact ⟨ts, by simp⟩
    | cons w ws => exact ⟨_, by rw [List.intercalate_cons_cons]; rfl⟩
  rw [hws, List.cons_append, parseTokens_cons, parseTokens_cons, parseStep_valueOrEnd hne]

theorem parseTokens_firstMember (m : Bytes × Json) (ms : List (Bytes × Json)) (stack : List Frame) (us : List Token) :
    parseTokens ⟨.obj [] [] :: stack, .keyOrEnd⟩ (List.intercalate [.comma] (toksMembers (m :: ms)) ++ us) =
      parseTokens ⟨.obj [] [] :: stack, .key⟩ (List.intercalate [.comma] (toksMembers (m :: ms)) ++ us) := by
  obtain ⟨k, v⟩ := m
  obtain ⟨ws, hws⟩ : ∃ ws, List.intercalate [.comma] (toksMembers ((k, v) :: ms)) = .str k :: ws := by
    rw [toksMembers]
    cases toksMembers ms with
    | nil => exact ⟨_, by rw [List.intercalate_singleton]⟩
    | cons w ws => exact ⟨_, by rw [List.intercalate_cons_cons]; rfl⟩
  rw [hws]
  rfl

theorem parseStep_close {stack : List Frame} {t : Token} {p : Parser} (ht : t ≠ .comma) (h : Parser.close stack t = some p) :
    parseStep ⟨stack, .commaOrEnd⟩ t = some p := by simp [parseStep, ht, h]

mutual

theorem parseTokens_toks : ∀ (v : Json) (stack : List Frame), stack.length + depth v ≤ maxNestingDepth →
    parseTokens ⟨stack, .value⟩ (toks v) = some (.complete stack v)
  | .null, _, _ => rfl
  | .bool _, _, _ => rfl
  | .num _, _, _ => rfl
  | .str _, _, _ => rfl
  | .arr items, stack, h => by
    have hlt : stack.length < maxNestingDepth := by simp only [depth] at h; omega
    have hopen : parseStep ⟨stack, .value⟩ .lbrack = some ⟨.arr [] :: stack, .valueOrEnd⟩ := by
      simp [parseStep, Parser.value, Parser.push, hlt]
    rw [toks, List.cons_append, parseTokens_cons, hopen, Option.bind_some]
    rcases items with _ | ⟨v, vs⟩
    · rfl
    have hitems := parseTokens_items (v :: vs) [] stack (by simp) (by simp only [depth] at h; omega)
    rw [parseTokens_firstItem, parseTokens_append, hitems, Option.bind_some, parseTokens_cons, parseStep_close (by simp) rfl]
    simp [parseTokens]
  | .obj ms, stack, h => by
    have hlt : stack.length < maxNestingDepth := by simp only [depth] at h; omega
    have hopen : parseStep ⟨stack, .value⟩ .lbrace = some ⟨.obj [] [] :: stack, .keyOrEnd⟩ := by
      simp [parseStep, Parser.value, Parser.push, hlt]
    rw [toks, List.cons_append, parseTokens_cons, hopen, Option.bind_some]
    rcases ms with _ | ⟨⟨k, v⟩, ms⟩
    · rfl
    obtain ⟨k', hms⟩ := parseTokens_members ((k, v) :: ms) [] [] stack (by simp) (by simp only [depth] at h; omega)
    rw [parseTokens_firstMember, parseTokens_append, hms, Option.bind_some, parseTokens_cons, parseStep_close (by simp) rfl]
    simp [parseTokens]

theorem parseTokens_items : ∀ (vs done : List Json) (stack : List Frame), vs ≠ [] →
    stack.length + 1 + depthItems vs ≤ maxNestingDepth →
    parseTokens ⟨.arr done :: stack, .value⟩ (List.intercalate [.comma] (toksItems vs)) =
      some ⟨.arr (vs.reverse ++ done) :: stack, .commaOrEnd⟩
  | [], _, _, h, _ => absurd rfl h
  | [v], done, stack, _, h => by
    simp only [depthItems] at h
    rw [toksItems, toksItems, List.intercalate_singleton,
      parseTokens_toks v (.arr done :: stack) (by simp only [List.length_cons]; omega)]
    rfl
  | v :: u :: vs, done, stack, _, h => by
    rw [depthItems] at h
    have hv := parseTokens_toks v (.arr done :: stack) (by simp only [List.length_cons]; omega)
    have hvs := parseTokens_items (u :: vs) (v :: done) stack (by simp) (by omega)
    rw [toksItems] at hvs ⊢
    rw [toksItems, List.intercalate_cons_cons, List.append_assoc, parseTokens_append, hv, Option.bind_some,
      List.singleton_append, parseTokens_cons]
    simp only [Parser.complete, parseStep, Parser.next, if_true, Option.bind_some, hvs]
    simp

theorem parseTokens_members : ∀ (ms done : List (Bytes × Json)) (k₀ : Bytes) (stack : List Frame), ms ≠ [] →
    stack.length + 1 + depthMembers ms ≤ maxNestingDepth →
    ∃ k', parseTokens ⟨.obj done k₀ :: stack, .key⟩ (List.intercalate [.comma] (toksMembers ms)) =
      some ⟨.obj (ms.reverse ++ done) k' :: stack, .commaOrEnd⟩
  | [], _, _, _, h, _ => absurd rfl h
  | [(k, v)], done, k₀, stack, _, h => by
    simp only [depthMembers] at h
    refine ⟨k, ?_⟩
    have hv := parseTokens_toks v (.obj done k :: stack) (by simp only [List.length_cons]; omega)
    rw [toksMembers, toksMembers, List.intercalate_singleton, parseTokens_cons, parseStep]
    simp only [Parser.key, Option.bind_some, parseTokens_cons, parseStep, if_true, hv]
    rfl
  | (k, v) :: (k₁, u) :: ms, done, k₀, stack, _, h => by
    rw [depthMembers] at h
    have hv := parseTokens_toks v (.obj done k :: stack) (by simp only [List.length_cons]; omega)
    obtain ⟨k', hms⟩ := parseTokens_members ((k₁, u) :: ms) ((k, v) :: done) k stack (by simp) (by omega)
    refine ⟨k', ?_⟩
    rw [toksMembers] at hms ⊢
    rw [toksMembers, List.intercalate_cons_cons, List.append_assoc, List.cons_append, List.cons_append, parseTokens_cons,
      parseStep]
    simp only [Parser.key, Option.bind_some, parseTokens_cons, parseStep, if_true, parseTokens_append, hv,
      Parser.complete, List.nil_append, List.cons_append, Parser.next, hms]
    simp

end

theorem parse_render {v : Json} (h : Wf v) (hd : depth v ≤ maxNestingDepth) : parse (render v) = some v := by
  have hp := parseTokens_toks v [] (by simpa using hd)
  simp [parse, tokens_render v h, hp, Parser.complete]

theorem StrLit.of_high {l : Bytes} (h : ∀ b ∈ l, 0x80 ≤ b.toNat) : StrLit l := by
  induction l with
  | nil => rfl
  | cons b l ih =>
    have hb := h b (List.mem_cons_self ..)
    have h1 : b ≠ 34 := by rintro rfl; simp at hb
    have h2 : b ≠ 92 := by rintro rfl; simp at hb
    have h3 : ¬ b < 32 := by rw [UInt8.lt_iff_toNat_lt]; simp; omega
    simp only [StrLit, strRun, strStep, h1, h2, h3, and_false, if_false, Option.bind_some]
    exact ih fun x hx => h x (.tail _ hx)

theorem strLit_escapeByte : ∀ n < 128, StrLit (escapeByte (UInt8.ofNat n)) := by decide +kernel

theorem strLit_escapeU (c : Nat) : StrLit (escapeU c) := by
  have hx : ∀ n < 16, isHex (hexLower n) := by decide
  have h := fun k => hx (k % 16) (Nat.mod_lt _ (by decide))
  simp [StrLit, strRun, escapeU, strStep, h, show (92 : UInt8) ≠ 34 by decide]

theorem high_of_mem_encodeRune {c : Nat} (hc : 0x80 ≤ c) (hs : Utf8.IsScalar c) {b : UInt8} (hb : b ∈ Utf8.encodeRune c) :
    0x80 ≤ b.toNat := by
  have hs' := hs
  unfold Utf8.encodeRune at hb
  unfold Utf8.IsScalar at hs'
  split_ifs at hb with h1 h2 h3
  · omega
  · simp only [List.mem_cons, List.not_mem_nil, or_false] at hb
    rcases hb with rfl | rfl <;> simp only [UInt8.toNat_ofNat'] <;> omega
  · simp only [List.mem_cons, List.not_mem_nil, or_false] at hb
    rcases hb with rfl | rfl | rfl <;> simp only [UInt8.toNat_ofNat'] <;> omega
  · simp only [List.mem_cons, List.not_mem_nil, or_false] at hb
    rcases hb with rfl | rfl | rfl | rfl <;> simp only [UInt8.toNat_ofNat'] <;> omega

theorem escape_bad {a : UInt8} {t : Bytes} (h : Utf8.decodeRune (a :: t) = (Utf8.runeError, 1)) :
    escape (a :: t) = escapeU Utf8.runeError ++ escape t := by
  rw [escape, Utf8.runes_bad h]; rfl

theorem escape_encodeRune {c : Nat} (hc : Utf8.IsScalar c) (t : Bytes) :
    escape (Utf8.encodeRune c ++ t) = escapeRune (c, Utf8.encodeRune c) ++ escape t := by
  rw [escape, Utf8.runes_encodeRune_append hc]; rfl

theorem escapeRune_cases (c : Nat) :
    c < 128 ∧ escapeRune (c, Utf8.encodeRune c) = escapeByte (UInt8.ofNat c) ∨
    (128 ≤ c ∧ c < 0x10000) ∧ escapeRune (c, Utf8.encodeRune c) = escapeU c ∨
    128 ≤ c ∧ escapeRune (c, Utf8.encodeRune c) = Utf8.encodeRune c := by
  unfold escapeRune
  simp only [Utf8.invalid_encodeRune, Bool.false_eq_true, if_false]
  split_ifs with h1 h2
  · exact .inl ⟨h1, rfl⟩
  · exact .inr (.inl ⟨⟨by omega, by omega⟩, rfl⟩)
  · exact .inr (.inr ⟨by omega, rfl⟩)

theorem strLit_escape (s : Bytes) : StrLit (escape s) := by
  induction s using Utf8.rune_induction with
  | nil => rfl
  | bad a t h hx ih => rw [escape_bad h]; exact (strLit_escapeU _).append ih
  | good c t hc ih =>
    rw [escape_encodeRune hc]
    refine StrLit.append ?_ ih
    rcases escapeRune_cases c with ⟨h1, he⟩ | ⟨-, he⟩ | ⟨h1, he⟩ <;> rw [he]
    · exact strLit_escapeByte c h1
    · exact strLit_escapeU c
    · exact .of_high fun b hb => high_of_mem_encodeRune h1 hc hb

theorem unquoteFrom_skip (u s : Bytes) : unquoteFrom u.length (u ++ s) = unquoteFrom 0 s := by
  induction u with
  | nil => rfl
  | cons b u ih => exact ih

theorem hex4_eq {c : Nat} (h : c < 0x10000) :
    hex4 (hexLower (c / 4096 % 16)) (hexLower (c / 256 % 16)) (hexLower (c / 16 % 16)) (hexLower (c % 16)) = c := by
  have hv : ∀ n < 16, hexVal (hexLower n) = n := by decide
  rw [hex4, hv _ (by omega), hv _ (by omega), hv _ (by omega), hv _ (by omega)]
  omega

theorem unquote_escapeU {c : Nat} (hc : Utf8.IsScalar c) (h : c < 0x10000) (t : Bytes) :
    unquote (escapeU c ++ t) = Utf8.encodeRune c ++ unquote t := by
  have hs : ¬ (0xD800 ≤ c ∧ c < 0xE000) := by unfold Utf8.IsScalar at hc; omega
  simp [unquote, unquoteFrom, escapeU, unquoteStep, hex4_eq h, hs]

theorem unquote_escapeByte {n : Nat} (h : n < 128) (t : Bytes) :
    unquote (escapeByte (UInt8.ofNat n) ++ t) = UInt8.ofNat n :: unquote t := by
  have hn := Utf8.toNat_ofNat (show n < 256 by omega)
  have hu := unquote_escapeU (c := n) (.inl (by omega)) (by omega) t
  rw [Utf8.encodeRune, if_pos h] at hu
  unfold escapeByte
  split_ifs with h1 h2 h3 h4 h5 h6 h7
  · rcases h1 with h1 | h1 <;> rw [h1] <;> simp [unquote, unquoteFrom, unquoteStep, unescape]
  · rw [h2]; simp [unquote, unquoteFrom, unquoteStep, unescape]
  · rw [h3]; simp [unquote, unquoteFrom, unquoteStep, unescape]
  · rw [h4]; simp [unquote, unquoteFrom, unquoteStep, unescape]
  · rw [h5]; simp [unquote, unquoteFrom, unquoteStep, unescape]
  · rw [h6]; simp [unquote, unquoteFrom, unquoteStep, unescape]
  · rw [hn]; exact hu
  · have h8 : (UInt8.ofNat n) ≠ 92 := fun he => h1 (.inr he)
    simp [unquote, unquoteFrom, unquoteStep, h8, hn, h]

theorem unquote_encodeRune {c : Nat} (hc : Utf8.IsScalar c) (h : 128 ≤ c) (t : Bytes) :
    unquote (Utf8.encodeRune c ++ t) = Utf8.encodeRune c ++ unquote t := by
  have hd := Utf8.decodeRune_encodeRune hc t
  have hhigh := fun b => high_of_mem_encodeRune h hc (b := b)
  rcases he : Utf8.encodeRune c with _ | ⟨b, u⟩
  · exact absurd he (Utf8.encodeRune_ne_nil c)
  rw [he, List.cons_append] at hd
  have hb := hhigh b (he ▸ List.mem_cons_self ..)
  have h92 : b ≠ 92 := by rintro rfl; simp at hb
  have hlt : ¬ b.toNat < 0x80 := by omega
  have hstep : unquoteStep b (u ++ t) = (Utf8.encodeRune c, u.length) := by
    simp [unquoteStep, h92, hlt, hd]
  rw [unquote, List.cons_append, unquoteFrom, hstep, he]
  simp only [unquoteFrom_skip]
  rfl

def repair (s : Bytes) : Bytes := (Utf8.runes s).flatMap fun r => if Utf8.invalid r then Utf8.encodeRune Utf8.runeError else r.2

theorem repair_encodeRune {c : Nat} (hc : Utf8.IsScalar c) (t : Bytes) : repair (Utf8.encodeRune c ++ t) = Utf8.encodeRune c ++ repair t := by
  rw [repair, Utf8.runes_encodeRune_append hc, List.flatMap_cons, Utf8.invalid_encodeRune]; rfl

theorem unquote_escape (s : Bytes) : unquote (escape s) = repair s := by
  induction s using Utf8.rune_induction with
  | nil => rfl
  | bad a t h hx ih =>
    rw [escape_bad h, unquote_escapeU (by decide) (by decide), ih, repair, repair, Utf8.runes_bad h]
    rfl
  | good c t hc ih =>
    rw [escape_encodeRune hc, repair_encodeRune hc, ← ih]
    rcases escapeRune_cases c with ⟨h1, he⟩ | ⟨h1, he⟩ | ⟨h1, he⟩ <;> rw [he]
    · rw [unquote_escapeByte h1, Utf8.encodeRune, if_pos h1]; rfl
    · exact unquote_escapeU hc h1.2 _
    · exact unquote_encodeRune hc h1 _

theorem repair_eq_self {s : Bytes} (h : Utf8.validString s) : repair s = s := by
  have hall : ∀ r ∈ Utf8.runes s, Utf8.invalid r = false := fun r hr => by
    simpa using List.all_eq_true.1 h r hr
  conv_rhs => rw [← Utf8.runes_flatten s]
  refine List.flatMap_congr fun r hr => ?_
  rw [hall r hr]; rfl

theorem lexRun_digits {ds : Bytes} (h : ∀ b ∈ ds, Bytes.isDigit b) (acc : Bytes) :
    lexRun (.num .int acc) ds = some (.num .int (ds.reverse ++ acc), []) := by
  induction ds generalizing acc with
  | nil => rfl
  | cons b ds ih =>
    have hb := h b (List.mem_cons_self ..)
    simp [lexRun, lexStep, numStep, hb, ih fun x hx => h x (.tail _ hx)]

theorem lexStep_digit {b : UInt8} (h : Bytes.isDigit b) (h0 : b ≠ 48) :
    lexStep .idle b = some (.num .int [b], []) ∧ ∀ acc, lexStep (.num .neg acc) b = some (.num .int (b :: acc), []) := by
  have hr : 48 ≤ b.toNat ∧ b.toNat ≤ 57 := by
    simpa [Bytes.isDigit, UInt8.le_iff_toNat_le] using h
  have hne : ∀ k : UInt8, k.toNat < 48 ∨ 57 < k.toNat → b ≠ k := by rintro k hk rfl; omega
  refine ⟨?_, fun acc => by simp [lexStep, numStep, h0, h]⟩
  simp only [lexStep, idleStep, isSpace, h0, h, hne 32 (by decide), hne 9 (by decide), hne 13 (by decide), hne 10 (by decide),
    hne 123 (by decide), hne 125 (by decide), hne 91 (by decide), hne 93 (by decide), hne 58 (by decide),
    hne 44 (by decide), hne 34 (by decide), hne 45 (by decide), beq_iff_eq, Bool.or_eq_true, or_self, if_false, if_true]

theorem numLit_itoa (n : Int) : NumLit (Bytes.itoa n) := by
  have hvis : ∀ n, ∀ b ∈ Bytes.digits n, 32 ≤ b := fun n b hb => by
    have := Bytes.isDigit_of_mem_digits hb
    simp only [Bytes.isDigit, Bool.and_eq_true, decide_eq_true_eq] at this
    exact UInt8.le_trans (by decide) this.1
  have hpos : ∀ n, 0 < n → ∃ d ds, Bytes.digits n = d :: ds ∧ (Bytes.isDigit d ∧ d ≠ 48) ∧ ∀ b ∈ ds, Bytes.isDigit b := by
    intro n h
    obtain ⟨d, ds, hd, h1, h2⟩ := Bytes.digits_cons h
    exact ⟨d, ds, hd, ⟨h1, h2⟩, fun b hb => Bytes.isDigit_of_mem_digits (n := n) (hd ▸ .tail _ hb)⟩
  cases n with
  | ofNat n =>
    cases n with
    | zero => decide
    | succ n =>
      obtain ⟨d, ds, hd, h1, h2⟩ := hpos (n + 1) (by omega)
      refine ⟨?_, hvis (n + 1)⟩
      simp [tokens, Bytes.itoa, hd, lexRun, (lexStep_digit h1.1 h1.2).1, lexRun_digits h2, Lex.finish, NumState.final]
  | negSucc n =>
    obtain ⟨d, ds, hd, h1, h2⟩ := hpos (n + 1) (by omega)
    have hneg : lexStep .idle 45 = some (.num .neg [45], []) := by decide
    refine ⟨?_, List.forall_mem_cons.2 ⟨by decide, hvis (n + 1)⟩⟩
    simp [tokens, Bytes.itoa, hd, lexRun, hneg, (lexStep_digit h1.1 h1.2).2, lexRun_digits h2, Lex.finish, NumState.final]

theorem digitsVal_digits (n : Nat) : digitsVal (Bytes.digits n) = n := by
  have hval : ∀ k < 10, (UInt8.ofNat (48 + k)).toNat - 48 = k := by decide
  induction n using Nat.strongRecOn with
  | ind n ih =>
    rcases Nat.lt_or_ge n 10 with hlt | hge
    · rw [Bytes.digits_of_lt hlt]
      simp only [digitsVal, List.foldl_cons, List.foldl_nil, hval n hlt, Nat.zero_mul, Nat.zero_add]
    · have hih := ih (n / 10) (by omega)
      rw [Bytes.digits_of_ge hge, digitsVal, List.foldl_append, ← digitsVal, hih]
      simp only [List.foldl_cons, List.foldl_nil, hval _ (Nat.mod_lt n (by decide : 0 < 10))]
      omega

theorem parseInt_itoa (n : Int) : parseInt (Bytes.itoa n) = some n := by
  have hall : ∀ n, (Bytes.digits n).all Bytes.isDigit = true := fun n =>
    List.all_eq_true.2 fun b hb => Bytes.isDigit_of_mem_digits hb
  have hne := fun n => Bytes.digits_ne_nil n
  cases n with
  | ofNat n =>
    have hneg : ∀ ds, Bytes.digits n ≠ 45 :: ds := fun ds he => by
      have := Bytes.isDigit_of_mem_digits (n := n) (b := 45) (he ▸ List.mem_cons_self ..)
      simp [Bytes.isDigit] at this
    unfold parseInt
    split
    · rename_i ds he
      exact absurd he (hneg ds)
    · rw [Bytes.itoa, if_pos ⟨hne n, hall n⟩, digitsVal_digits]; rfl
  | negSucc n =>
    rw [Bytes.itoa, parseInt, if_pos ⟨hne _, hall _⟩, digitsVal_digits, Int.negSucc_eq]; rfl

theorem parseInt64_itoa {n : Int} (h1 : -2 ^ 63 ≤ n) (h2 : n < 2 ^ 63) : parseInt64 (Bytes.itoa n) = some n := by
  rw [parseInt64, parseInt_itoa, Option.bind_some, if_pos ⟨h1, h2⟩]

theorem length_escape_le (s : Bytes) : (escape s).length ≤ 6 * s.length := by
  have hbyte : ∀ n < 128, (escapeByte (UInt8.ofNat n)).length ≤ 6 := by decide +kernel
  induction s using Utf8.rune_induction with
  | nil => exact le_rfl
  | bad a t h hx ih => rw [escape_bad h, List.length_append, List.length_cons]; simp [escapeU]; omega
  | good c t hc ih =>
    have hlen := List.length_pos_iff.2 (Utf8.encodeRune_ne_nil c)
    rw [escape_encodeRune hc, List.length_append, List.length_append]
    rcases escapeRune_cases c with ⟨h1, he⟩ | ⟨-, he⟩ | ⟨-, he⟩ <;> rw [he]
    · have := hbyte c h1; omega
    · simp only [escapeU, List.length_cons, List.length_nil]; omega
    · omega

theorem le_of_strRun {st st' : StrState} {lit : Bytes} (h : strRun st lit = some st') : ∀ b ∈ lit, 32 ≤ b := by
  have hesc : ∀ b : UInt8, isEscape b → 32 ≤ b := by
    intro b hb
    simp only [isEscape, List.contains_iff_mem, List.mem_cons, List.not_mem_nil, or_false] at hb
    rcases hb with rfl | rfl | rfl | rfl | rfl | rfl | rfl | rfl <;> decide
  have hhex : ∀ b : UInt8, isHex b → 32 ≤ b := by
    intro b hb
    simp only [isHex, Bytes.isDigit, Bool.or_eq_true, Bool.and_eq_true, decide_eq_true_eq] at hb
    rcases hb with (⟨h, -⟩ | ⟨h, -⟩) | ⟨h, -⟩ <;> exact UInt8.le_trans (by decide) h
  induction lit generalizing st with
  | nil => simp
  | cons b lit ih =>
    simp only [strRun] at h
    split_ifs at h with hq
    obtain ⟨s, hs, h⟩ := Option.bind_eq_some_iff.1 h
    refine List.forall_mem_cons.2 ⟨?_, ih h⟩
    cases st with
    | plain =>
      simp only [strStep] at hs
      split_ifs at hs with h1 h2
      · rw [h1]; decide
      · exact UInt8.not_lt.1 h2
    | esc =>
      simp only [strStep] at hs
      split_ifs at hs with h1 h2
      · rw [h1]; decide
      · exact hesc b h2
    | hex n =>
      simp only [strStep] at hs
      split_ifs at hs with h1 h2
      all_goals exact hhex b h1

theorem le_of_mem_quoted {lit : Bytes} (h : StrLit lit) {b : UInt8} (hb : b ∈ 34 :: lit ++ [34]) : 32 ≤ b := by
  simp only [List.mem_append, List.mem_cons, List.not_mem_nil, or_false] at hb
  rcases hb with (rfl | hb) | rfl
  · decide
  · exact le_of_strRun h b hb
  · decide

theorem le_of_mem_intercalate {ps : List Bytes} (h : ∀ p ∈ ps, ∀ b ∈ p, (32 : UInt8) ≤ b) {b : UInt8}
    (hb : b ∈ List.intercalate [44] ps) : 32 ≤ b := by
  induction ps with
  | nil => simp at hb
  | cons p ps ih =>
    have hp := h p (List.mem_cons_self ..)
    have hps := ih fun q hq => h q (.tail _ hq)
    cases ps with
    | nil => exact hp b (by simpa using hb)
    | cons q ps =>
      simp only [List.intercalate_cons_cons, List.mem_append, List.mem_singleton] at hb
      rcases hb with (hb | rfl) | hb
      · exact hp b hb
      · decide
      · exact hps hb

mutual

theorem le_of_mem_render : ∀ v : Json, Wf v → ∀ b ∈ render v, 32 ≤ b
  | .null, _ => by decide
  | .bool true, _ => by decide
  | .bool false, _ => by decide
  | .num _, h => h.visible
  | .str _, h => fun b hb => le_of_mem_quoted h hb
  | .arr items, h => fun b hb => by
    simp only [render, List.mem_append, List.mem_cons, List.not_mem_nil, or_false] at hb
    rcases hb with (rfl | hb) | rfl
    · decide
    · exact le_of_mem_intercalate (le_of_mem_renderItems items h) hb
    · decide
  | .obj ms, h => fun b hb => by
    simp only [render, object, List.mem_append, List.mem_cons, List.not_mem_nil, or_false] at hb
    rcases hb with (rfl | hb) | rfl
    · decide
    · exact le_of_mem_intercalate (le_of_mem_renderMembers ms h) hb
    · decide

theorem le_of_mem_renderItems : ∀ vs : List Json, WfItems vs → ∀ p ∈ renderItems vs, ∀ b ∈ p, (32 : UInt8) ≤ b
  | [], _ => fun _ hp => nomatch hp
  | v :: vs, h => List.forall_mem_cons.2 ⟨le_of_mem_render v h.1, le_of_mem_renderItems vs h.2⟩

theorem le_of_mem_renderMembers : ∀ ms : List (Bytes × Json), WfMembers ms → ∀ p ∈ renderMembers ms, ∀ b ∈ p, (32 : UInt8) ≤ b
  | [], _ => fun _ hp => nomatch hp
  | (k, v) :: ms, h => List.forall_mem_cons.2 ⟨fun b hb => by
      simp only [member, List.mem_append, List.mem_cons, List.not_mem_nil, or_false] at hb
      rcases hb with ((rfl | hb) | rfl | rfl) | hb
      · decide
      · exact le_of_strRun h.1 b hb
      · decide
      · decide
      · exact le_of_mem_render v h.2.1 b hb, le_of_mem_renderMembers ms h.2.2⟩

end

theorem matchField_of_mem {names : List Bytes} {k : Bytes} (h : k ∈ names) : matchField names k = some k := if_pos h

theorem decodeStruct_of_parse {α : Type} {names : List Bytes} {set : α → Bytes → Json → Option α} {zero : α} {s : Bytes}
    {ms : List (Bytes × Json)} (hp : parse s = some (.obj ms)) (hk : ∀ m ∈ ms, unquote m.1 = m.1 ∧ m.1 ∈ names) :
    decodeStruct names set zero s = ms.foldlM (fun a m => set a m.1 m.2) zero := by
  simp only [decodeStruct, hp]
  clear hp
  induction ms generalizing zero with
  | nil => rfl
  | cons m ms ih =>
    obtain ⟨h1, h2⟩ := hk m (List.mem_cons_self ..)
    simp only [List.foldlM_cons, h1, matchField_of_mem h2]
    rcases set zero m.1 m.2 with _ | a
    · rfl
    · exact ih fun m hm => hk m (.tail _ hm)

end Json
