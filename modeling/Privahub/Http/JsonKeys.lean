import Privahub.Http.KeyNames
import Privahub.Lib.JsonTree
import Mathlib.Data.List.Pairwise

/-!
# Duplicate and aliased object keys

`CheckJSONKeys` (jsonkeys.go) pulls the tokens of a body out of `json.Decoder.Token` and keeps a stack
of its own. `Decoder` is the decoder's syntax state, which consumes commas and colons itself; an offset
into the body is the number of tokens before it, and a raw value the tokens of its span, so comparing
two of them after compaction is comparing tokens. `checkJSONKeys_iff`: of the texts with one value,
those are accepted in which keys of one canonical name have one value, at every depth.
-/

namespace Http

open Json

inductive TokenState where
  | topValue | arrayStart | arrayValue | arrayComma | objectStart | objectKey | objectColon | objectValue | objectComma
  deriving DecidableEq

structure Decoder where
  state : TokenState
  stack : List TokenState

namespace Decoder

def valueAllowed (d : Decoder) : Bool :=
  d.state == .topValue || d.state == .arrayStart || d.state == .arrayValue || d.state == .objectValue

def valueEnd (d : Decoder) : Decoder :=
  match d.state with
  | .arrayStart | .arrayValue => { d with state := .arrayComma }
  | .objectValue => { d with state := .objectComma }
  | _ => d

def openBracket (d : Decoder) (s : TokenState) : Option Decoder :=
  if d.valueAllowed then some ⟨s, d.state :: d.stack⟩ else none

def closeBracket (d : Decoder) (start comma : TokenState) : Option Decoder :=
  if d.state = start ∨ d.state = comma then
    match d.stack with
    | [] => none
    | s :: stack => some (valueEnd ⟨s, stack⟩)
  else none

def atKey (d : Decoder) : Bool := d.state == .objectStart || d.state == .objectKey

/-- The decoder after the next token of the text, `none` for a syntax error. -/
def token (d : Decoder) : Token → Option Decoder
  | .lbrack => d.openBracket .arrayStart
  | .lbrace => d.openBracket .objectStart
  | .rbrack => d.closeBracket .arrayStart .arrayComma
  | .rbrace => d.closeBracket .objectStart .objectComma
  | .colon => if d.state = .objectColon then some { d with state := .objectValue } else none
  | .comma =>
    if d.state = .arrayComma then some { d with state := .arrayValue }
    else if d.state = .objectComma then some { d with state := .objectKey } else none
  | .str _ => if d.atKey then some { d with state := .objectColon } else if d.valueAllowed then some d.valueEnd else none
  | _ => if d.valueAllowed then some d.valueEnd else none

end Decoder

structure KeySpan where
  raw : Bytes
  value : List Token

/-- `pendingStart` is `none` for `-1`. -/
structure KeyFrame where
  obj : Bool
  expectKey : Bool
  keys : List (List Nat × KeySpan)
  pendingKey : Bytes
  pendingCanon : List Nat
  pendingStart : Option Nat

def KeyFrame.object : KeyFrame := ⟨true, true, [], [], [], none⟩

def KeyFrame.array : KeyFrame := ⟨false, false, [], [], [], none⟩

inductive CheckError where
  | duplicate (a b : Bytes)
  | invalid

/-- `json.Compact` of a span: an error unless it is one value, not nested too deeply. -/
def Compact (ts : List Token) : Option (List Token) :=
  match parseTokens ⟨[], .value⟩ ts with
  | some ⟨_, .eof _⟩ => some ts
  | _ => none

def sameJSON (a b : List Token) : Bool :=
  match Compact (a.dropWhile (· == .colon)), Compact (b.dropWhile (· == .colon)) with
  | some a, some b => a == b
  | _, _ => false

structure Scan where
  dec : Decoder
  stack : List KeyFrame
  dupErr : Option (Bytes × Bytes)
  started : Bool

def Scan.init : Scan := ⟨⟨.topValue, []⟩, [], none, false⟩

variable (u : CaseTables)

def span (text : List Token) (start stop : Nat) : List Token := (text.take stop).drop start

def keySpan (keys : List (List Nat × KeySpan)) (canon : List Nat) : Option KeySpan :=
  (keys.find? fun k => decide (k.1 = canon)).map Prod.snd

/-- `valueDone` on the innermost object, whose value ends at `stop`. -/
def KeyFrame.valueDone (top : KeyFrame) (text : List Token) (stop : Nat) (dupErr : Option (Bytes × Bytes)) :
    KeyFrame × Option (Bytes × Bytes) :=
  match top.pendingStart with
  | none => ({ top with expectKey := true }, dupErr)
  | some start =>
    let val := span text start stop
    match keySpan top.keys top.pendingCanon with
    | some prev => ({ top with expectKey := true, pendingStart := none },
        if dupErr = none ∧ !sameJSON prev.value val then some (prev.raw, top.pendingKey) else dupErr)
    | none => ({ top with
        expectKey := true
        pendingStart := none
        keys := top.keys ++ [(top.pendingCanon, ⟨top.pendingKey, val⟩)] }, dupErr)

def Scan.valueDone (s : Scan) (text : List Token) (stop : Nat) : Scan :=
  match s.stack with
  | [] => s
  | top :: stack =>
    if top.obj then
      let r := top.valueDone text stop s.dupErr
      { s with stack := r.1 :: stack, dupErr := r.2 }
    else s

/-- One token of the text, `stop` tokens into it. Commas and colons never leave the decoder. -/
def Scan.step (text : List Token) (stop : Nat) (s : Scan) (t : Token) : Option Scan :=
  match s.dec.token t with
  | none => none
  | some dec =>
    if t = .comma ∨ t = .colon then some { s with dec := dec }
    else if s.started ∧ s.stack = [] then none
    else
      let s := { s with dec := dec, started := true }
      match t with
      | .lbrace => some { s with stack := .object :: s.stack }
      | .lbrack => some { s with stack := .array :: s.stack }
      | .rbrace | .rbrack => some (Scan.valueDone { s with stack := s.stack.tail } text stop)
      | .str lit =>
        match s.stack with
        | top :: stack =>
          if top.obj ∧ top.expectKey then
            let key := unquote lit
            some { s with stack := { top with
              pendingKey := key, pendingCanon := CanonicalJSONKey u key, pendingStart := some stop, expectKey := false } :: stack }
          else some (s.valueDone text stop)
        | [] => some (s.valueDone text stop)
      | _ => some (s.valueDone text stop)

/-- The loop over the tokens from offset `i` on. -/
def Scan.run (text : List Token) (i : Nat) (s : Scan) : List Token → Option Scan
  | [] => some s
  | t :: ts => (s.step u text (i + 1) t).bind fun s => Scan.run text (i + 1) s ts

def CheckJSONKeys (body : Bytes) : Except CheckError Unit :=
  match tokens body with
  | none => .error .invalid
  | some text =>
    match Scan.run u text 0 .init text with
    | none => .error .invalid
    | some s =>
      if !s.started ∨ s.stack ≠ [] then .error .invalid
      else match s.dupErr with
        | some d => .error (.duplicate d.1 d.2)
        | none => .ok ()

def OneValue (ms : List (Bytes × Json)) : Prop :=
  ∀ m ∈ ms, ∀ m' ∈ ms, CanonicalJSONKey u (unquote m.1) = CanonicalJSONKey u (unquote m'.1) → m.2 = m'.2

mutual

def Unambiguous : Json → Prop
  | .arr items => UnambiguousItems items
  | .obj ms => OneValue u ms ∧ UnambiguousMembers ms
  | _ => True

def UnambiguousItems : List Json → Prop
  | [] => True
  | v :: vs => Unambiguous v ∧ UnambiguousItems vs

def UnambiguousMembers : List (Bytes × Json) → Prop
  | [] => True
  | (_, v) :: ms => Unambiguous v ∧ UnambiguousMembers ms

end

def SameValue (v w : Json) : Prop := ∃ c, Compact (toks v) = some c ∧ Compact (toks w) = some c

/-- Any two keys of one canonical name have the same value after compaction. -/
def AliasesAgree (ms : List (Bytes × Json)) : Prop :=
  ms.Pairwise fun m m' => CanonicalJSONKey u (unquote m.1) = CanonicalJSONKey u (unquote m'.1) → SameValue m.2 m'.2

mutual

/-- In every object, at every depth, any two keys of one canonical name have the same value after compaction. -/
def KeysAgree : Json → Prop
  | .arr items => KeysAgreeItems items
  | .obj ms => AliasesAgree u ms ∧ KeysAgreeMembers ms
  | _ => True

def KeysAgreeItems : List Json → Prop
  | [] => True
  | v :: vs => KeysAgree v ∧ KeysAgreeItems vs

def KeysAgreeMembers : List (Bytes × Json) → Prop
  | [] => True
  | (_, v) :: ms => KeysAgree v ∧ KeysAgreeMembers ms

end

/-- The tokens `ts` stand at offset `i`. -/
def Reads (text : List Token) (i : Nat) (ts : List Token) : Prop := ts <+: text.drop i

variable {u} {text ts us : List Token} {i : Nat} {s s' : Scan}

theorem Reads.left (h : Reads text i (ts ++ us)) : Reads text i ts := (List.prefix_append ts us).trans h

theorem Reads.right (h : Reads text i (ts ++ us)) : Reads text (i + ts.length) us := by
  obtain ⟨r, hr⟩ := h
  refine ⟨r, ?_⟩
  rw [← List.drop_drop, ← hr, List.append_assoc, List.drop_left]

theorem Reads.span (h : Reads text i ts) : span text i (i + ts.length) = ts := by
  rw [Http.span, List.drop_take, Nat.add_sub_cancel_left]
  exact (List.prefix_iff_eq_take.1 h).symm

theorem Scan.run_cons (t : Token) : Scan.run u text i s (t :: ts) = (s.step u text (i + 1) t).bind fun s => Scan.run u text (i + 1) s ts := rfl

theorem Scan.run_append : Scan.run u text i s (ts ++ us) = (Scan.run u text i s ts).bind fun s => Scan.run u text (i + ts.length) s us := by
  induction ts generalizing i s with
  | nil => rfl
  | cons t ts ih =>
    rw [List.cons_append, Scan.run_cons, Scan.run_cons, Option.bind_assoc]
    congr 1
    funext x
    rw [ih, List.length_cons, Nat.add_right_comm, Nat.add_assoc]

structure AwaitsValue (s : Scan) : Prop where
  allowed : s.dec.valueAllowed = true
  open' : s.started = true → s.stack ≠ []
  noKey : ∀ top ∈ s.stack.head?, top.obj = true → top.expectKey = false

theorem AwaitsValue.not_atKey (h : AwaitsValue s) : s.dec.atKey = false := by
  have := h.allowed
  unfold Decoder.valueAllowed at this
  unfold Decoder.atKey
  cases hs : s.dec.state <;> simp_all

theorem run_atom {t : Token} (h : AwaitsValue s) (ht : t.closes = false) (h1 : t ≠ .lbrace) (h2 : t ≠ .lbrack) :
    Scan.run u text i s [t] = some (Scan.valueDone { s with dec := s.dec.valueEnd, started := true } text (i + 1)) := by
  have hopen : ¬ (s.started = true ∧ s.stack = []) := fun hc => h.open' hc.1 hc.2
  rw [Scan.run_cons]
  cases t with
  | str lit =>
    have htok : s.dec.token (.str lit) = some s.dec.valueEnd := by simp [Decoder.token, h.not_atKey, h.allowed]
    have hstep : s.step u text (i + 1) (.str lit) = some (Scan.valueDone { s with dec := s.dec.valueEnd, started := true } text (i + 1)) := by
      simp only [Scan.step, htok, reduceCtorEq, or_self, if_false, if_neg hopen]
      cases hstack : s.stack with
      | nil => rfl
      | cons top stack =>
        have hnk := h.noKey top (by simp [hstack])
        have : ¬ (top.obj = true ∧ top.expectKey = true) := fun hc => by rw [hnk hc.1] at hc; exact absurd hc.2 (by simp)
        simp only [if_neg this]
    rw [hstep]; rfl
  | null | bool | num =>
    simp only [Scan.step, Decoder.token, h.allowed, if_true, reduceCtorEq, or_self, if_false, if_neg hopen]; rfl
  | lbrace => exact absurd rfl h1
  | lbrack => exact absurd rfl h2
  | _ => simp [Token.closes] at ht

theorem step_lbrack (h : AwaitsValue s) : s.step u text i .lbrack =
    some ⟨⟨.arrayStart, s.dec.state :: s.dec.stack⟩, .array :: s.stack, s.dupErr, true⟩ := by
  have hopen : ¬ (s.started = true ∧ s.stack = []) := fun hc => h.open' hc.1 hc.2
  simp [Scan.step, Decoder.token, Decoder.openBracket, h.allowed, hopen]

theorem step_lbrace (h : AwaitsValue s) : s.step u text i .lbrace =
    some ⟨⟨.objectStart, s.dec.state :: s.dec.stack⟩, .object :: s.stack, s.dupErr, true⟩ := by
  have hopen : ¬ (s.started = true ∧ s.stack = []) := fun hc => h.open' hc.1 hc.2
  simp [Scan.step, Decoder.token, Decoder.openBracket, h.allowed, hopen]

theorem step_rbrack {st : TokenState} {ds : List TokenState} {f : KeyFrame} {fs : List KeyFrame} {d : Option (Bytes × Bytes)}
    {ts : TokenState} (h : ts = .arrayStart ∨ ts = .arrayComma) :
    Scan.step u text i ⟨⟨ts, st :: ds⟩, f :: fs, d, true⟩ .rbrack = some (Scan.valueDone ⟨Decoder.valueEnd ⟨st, ds⟩, fs, d, true⟩ text i) := by
  simp [Scan.step, Decoder.token, Decoder.closeBracket, h]

theorem step_rbrace {st : TokenState} {ds : List TokenState} {f : KeyFrame} {fs : List KeyFrame} {d : Option (Bytes × Bytes)}
    {ts : TokenState} (h : ts = .objectStart ∨ ts = .objectComma) :
    Scan.step u text i ⟨⟨ts, st :: ds⟩, f :: fs, d, true⟩ .rbrace = some (Scan.valueDone ⟨Decoder.valueEnd ⟨st, ds⟩, fs, d, true⟩ text i) := by
  simp [Scan.step, Decoder.token, Decoder.closeBracket, h]

def note (keys : List (List Nat × KeySpan)) (m : Bytes × Json) : List (List Nat × KeySpan) :=
  match keySpan keys (CanonicalJSONKey u (unquote m.1)) with
  | some _ => keys
  | none => keys ++ [(CanonicalJSONKey u (unquote m.1), ⟨unquote m.1, .colon :: toks m.2⟩)]

def Agrees (keys : List (List Nat × KeySpan)) (m : Bytes × Json) : Prop :=
  ∀ prev, keySpan keys (CanonicalJSONKey u (unquote m.1)) = some prev → sameJSON prev.value (.colon :: toks m.2) = true

def AllAgree (u : CaseTables) : List (List Nat × KeySpan) → List (Bytes × Json) → Prop
  | _, [] => True
  | keys, m :: ms => Agrees (u := u) keys m ∧ AllAgree u (note (u := u) keys m) ms

structure KeyFrame.Between (f : KeyFrame) : Prop where
  obj : f.obj = true
  expectKey : f.expectKey = true
  pendingStart : f.pendingStart = none

/-- What the scan does over the tokens of `v`, wherever they stand. -/
def ScansValue (u : CaseTables) (text : List Token) (v : Json) : Prop :=
  ∀ (i : Nat) (s : Scan), Reads text i (toks v) → AwaitsValue s →
    ∃ d, Scan.run u text i s (toks v) = some (Scan.valueDone ⟨s.dec.valueEnd, s.stack, d, true⟩ text (i + (toks v).length)) ∧
      (d = none ↔ s.dupErr = none ∧ KeysAgree u v)

theorem run_member {k : Bytes} {v : Json} (hv : ScansValue u text v) (hr : Reads text i (memberToks (k, v))) {st : TokenState}
    (hst : st = .objectStart ∨ st = .objectKey) (ds : List TokenState) {f : KeyFrame} (hf : f.Between) (fs : List KeyFrame)
    (d₀ : Option (Bytes × Bytes)) :
    ∃ d f', Scan.run u text i ⟨⟨st, ds⟩, f :: fs, d₀, true⟩ (memberToks (k, v)) = some ⟨⟨.objectComma, ds⟩, f' :: fs, d, true⟩ ∧
      f'.Between ∧ f'.keys = note (u := u) f.keys (k, v) ∧
      (d = none ↔ d₀ = none ∧ KeysAgree u v ∧ Agrees (u := u) f.keys (k, v)) := by
  let f₁ : KeyFrame := { f with
    pendingKey := unquote k, pendingCanon := CanonicalJSONKey u (unquote k), pendingStart := some (i + 1), expectKey := false }
  have hkey : Scan.step u text (i + 1) ⟨⟨st, ds⟩, f :: fs, d₀, true⟩ (.str k) = some ⟨⟨.objectColon, ds⟩, f₁ :: fs, d₀, true⟩ := by
    rcases hst with rfl | rfl <;> simp [Scan.step, Decoder.token, Decoder.atKey, hf.obj, hf.expectKey, f₁]
  have hcolon : Scan.step u text (i + 1 + 1) ⟨⟨.objectColon, ds⟩, f₁ :: fs, d₀, true⟩ .colon =
      some ⟨⟨.objectValue, ds⟩, f₁ :: fs, d₀, true⟩ := by simp [Scan.step, Decoder.token]
  have hread : Reads text (i + 1) (.colon :: toks v) := Reads.right (show Reads text i ([.str k] ++ (.colon :: toks v)) from hr)
  obtain ⟨d, hrun, hd⟩ := hv (i + 1 + 1) ⟨⟨.objectValue, ds⟩, f₁ :: fs, d₀, true⟩
    (Reads.right (show Reads text (i + 1) ([.colon] ++ toks v) from hread)) ⟨rfl, by simp, by simp [f₁]⟩
  have hspan : span text (i + 1) (i + 1 + 1 + (toks v).length) = .colon :: toks v := by
    have h := hread.span
    rwa [List.length_cons, Nat.add_comm (toks v).length 1, ← Nat.add_assoc] at h
  have hdone : f₁.valueDone text (i + 1 + 1 + (toks v).length) d =
      match keySpan f.keys (CanonicalJSONKey u (unquote k)) with
      | some prev => ({ f₁ with expectKey := true, pendingStart := none },
          if d = none ∧ !sameJSON prev.value (.colon :: toks v) then some (prev.raw, unquote k) else d)
      | none => ({ f₁ with
          expectKey := true
          pendingStart := none
          keys := f.keys ++ [(CanonicalJSONKey u (unquote k), ⟨unquote k, .colon :: toks v⟩)] }, d) := by
    simp only [KeyFrame.valueDone, f₁, hspan]
  refine ⟨(f₁.valueDone text (i + 1 + 1 + (toks v).length) d).2, (f₁.valueDone text (i + 1 + 1 + (toks v).length) d).1, ?_, ?_, ?_, ?_⟩
  · rw [memberToks, Scan.run_cons, hkey, Option.bind_some, Scan.run_cons, hcolon, Option.bind_some, hrun]
    simp [Scan.valueDone, Decoder.valueEnd, f₁, hf.obj]
  · rw [hdone]
    split <;> exact ⟨hf.obj, rfl, rfl⟩
  · rw [hdone, note]
    split <;> rename_i h <;> simp [h, f₁]
  · rw [hdone, Agrees]
    split <;> rename_i h
    · simp only [h, Option.some.injEq, forall_eq']
      split_ifs with hc
      · constructor
        · intro h; cases h
        · rintro ⟨h0, hv, hs⟩
          simp [hs] at hc
      · constructor
        · intro h1
          obtain ⟨h0, hv⟩ := hd.1 h1
          exact ⟨h0, hv, by simpa [h1] using hc⟩
        · rintro ⟨h0, hv, -⟩
          exact hd.2 ⟨h0, hv⟩
    · simp only [h, reduceCtorEq, false_imp_iff, implies_true, and_true]
      exact hd

theorem step_comma_array (ds : List TokenState) (fs : List KeyFrame) (d : Option (Bytes × Bytes)) :
    Scan.step u text i ⟨⟨.arrayComma, ds⟩, fs, d, true⟩ .comma = some ⟨⟨.arrayValue, ds⟩, fs, d, true⟩ := by
  simp [Scan.step, Decoder.token]

theorem step_comma_object (ds : List TokenState) (fs : List KeyFrame) (d : Option (Bytes × Bytes)) :
    Scan.step u text i ⟨⟨.objectComma, ds⟩, fs, d, true⟩ .comma = some ⟨⟨.objectKey, ds⟩, fs, d, true⟩ := by
  simp [Scan.step, Decoder.token]

theorem run_item {v : Json} (hv : ScansValue u text v) (hr : Reads text i (toks v)) {st : TokenState}
    (hst : st = .arrayStart ∨ st = .arrayValue) (ds : List TokenState) (fs : List KeyFrame) (d₀ : Option (Bytes × Bytes)) :
    ∃ d, Scan.run u text i ⟨⟨st, ds⟩, .array :: fs, d₀, true⟩ (toks v) = some ⟨⟨.arrayComma, ds⟩, .array :: fs, d, true⟩ ∧
      (d = none ↔ d₀ = none ∧ KeysAgree u v) := by
  have hallowed : Decoder.valueAllowed ⟨st, ds⟩ = true := by rcases hst with rfl | rfl <;> rfl
  obtain ⟨d, hrun, hd⟩ := hv i ⟨⟨st, ds⟩, .array :: fs, d₀, true⟩ hr ⟨hallowed, by simp, by simp [KeyFrame.array]⟩
  refine ⟨d, ?_, hd⟩
  rw [hrun]
  rcases hst with rfl | rfl <;> simp [Scan.valueDone, KeyFrame.array, Decoder.valueEnd]

theorem compact_eq_some {v : Json} {c : List Token} : Compact (toks v) = some c ↔ depth v ≤ maxNestingDepth ∧ c = toks v := by
  unfold Compact
  split
  · rename_i st w h
    obtain ⟨hd, -⟩ := parseTokens_toks_iff.1 h
    simp [hd, eq_comm]
  · rename_i h
    have hd : ¬ depth v ≤ maxNestingDepth := fun hd => h [] v (parseTokens_toks_iff.2 ⟨hd, rfl⟩)
    simp [hd]

theorem sameValue_iff {v w : Json} : SameValue v w ↔ v = w ∧ depth v ≤ maxNestingDepth := by
  constructor
  · rintro ⟨c, hv, hw⟩
    obtain ⟨hd, rfl⟩ := compact_eq_some.1 hv
    exact ⟨toks_injective (compact_eq_some.1 hw).2, hd⟩
  · rintro ⟨rfl, hd⟩
    exact ⟨toks v, compact_eq_some.2 ⟨hd, rfl⟩, compact_eq_some.2 ⟨hd, rfl⟩⟩

theorem SameValue.symm {v w : Json} (h : SameValue v w) : SameValue w v := by
  obtain ⟨c, hv, hw⟩ := h
  exact ⟨c, hw, hv⟩

theorem SameValue.trans {v w x : Json} (h : SameValue v w) (h' : SameValue w x) : SameValue v x := by
  obtain ⟨rfl, -⟩ := sameValue_iff.1 h
  exact h'

theorem sameJSON_iff {v w : Json} : sameJSON (.colon :: toks v) (.colon :: toks w) = true ↔ SameValue v w := by
  have hdrop : ∀ v : Json, (Token.colon :: toks v).dropWhile (· == .colon) = toks v := fun v => by
    obtain ⟨t, us, ht, ho⟩ := exists_toks_opens v
    have hne : (t == Token.colon) = false := by
      rw [beq_eq_false_iff_ne]
      rintro rfl
      cases ho
    rw [List.dropWhile_cons_of_pos (by simp), ht, List.dropWhile_cons_of_neg (by simp [hne])]
  rw [sameJSON, hdrop, hdrop, SameValue]
  split
  · rename_i a b ha hb
    rw [ha, hb, beq_iff_eq]
    simp [eq_comm]
  · rename_i h
    constructor
    · intro hf; cases hf
    · rintro ⟨c, hv, hw⟩
      exact absurd hw (h c c hv)

theorem keySpan_append {keys : List (List Nat × KeySpan)} {c : List Nat} (x : List Nat × KeySpan) :
    keySpan (keys ++ [x]) c = (keySpan keys c).or (if x.1 = c then some x.2 else none) := by
  rw [keySpan, keySpan, List.find?_append]
  cases h : keys.find? fun k => decide (k.1 = c) with
  | some y => simp
  | none => by_cases hx : x.1 = c <;> simp [hx]

def NotedOf (keys : List (List Nat × KeySpan)) (done : List (Bytes × Json)) : Prop :=
  (∀ m ∈ done, ∃ prev, keySpan keys (CanonicalJSONKey u (unquote m.1)) = some prev) ∧
  ∀ c prev, keySpan keys c = some prev → ∃ m ∈ done, CanonicalJSONKey u (unquote m.1) = c ∧ prev.value = .colon :: toks m.2

theorem NotedOf.note {keys : List (List Nat × KeySpan)} {done : List (Bytes × Json)} (h : NotedOf (u := u) keys done) (m : Bytes × Json) :
    NotedOf (u := u) (note (u := u) keys m) (done ++ [m]) := by
  unfold Http.note
  cases hk : keySpan keys (CanonicalJSONKey u (unquote m.1)) with
  | some p =>
    refine ⟨fun x hx => ?_, fun c prev hc => ?_⟩
    · rcases List.mem_append.1 hx with hx | hx
      · exact h.1 x hx
      · exact ⟨p, by rw [List.mem_singleton.1 hx]; exact hk⟩
    · obtain ⟨x, hx, he⟩ := h.2 c prev hc
      exact ⟨x, List.mem_append_left _ hx, he⟩
  | none =>
    refine ⟨fun x hx => ?_, fun c prev hc => ?_⟩
    · rw [keySpan_append]
      rcases List.mem_append.1 hx with hx | hx
      · obtain ⟨p, hp⟩ := h.1 x hx
        exact ⟨p, by rw [hp]; rfl⟩
      · rw [List.mem_singleton.1 hx, hk]
        exact ⟨_, if_pos rfl⟩
    · rw [keySpan_append] at hc
      cases hkc : keySpan keys c with
      | some p =>
        rw [hkc] at hc
        obtain ⟨x, hx, he⟩ := h.2 c prev (hkc.trans hc)
        exact ⟨x, List.mem_append_left _ hx, he⟩
      | none =>
        rw [hkc, Option.none_or] at hc
        split_ifs at hc with he
        exact ⟨m, by simp, he, by rw [← Option.some.inj hc]⟩

theorem AliasesAgree.sameValue {ms : List (Bytes × Json)} {m m' : Bytes × Json} (h : AliasesAgree u ms) (hm : m ∈ ms) (hm' : m' ∈ ms)
    (hne : m ≠ m') (hc : CanonicalJSONKey u (unquote m.1) = CanonicalJSONKey u (unquote m'.1)) : SameValue m.2 m'.2 := by
  have : Std.Symm fun m m' : Bytes × Json => CanonicalJSONKey u (unquote m.1) = CanonicalJSONKey u (unquote m'.1) → SameValue m.2 m'.2 :=
    ⟨fun a b hab hc => (hab hc.symm).symm⟩
  exact List.Pairwise.forall h hm hm' hne hc

theorem NotedOf.agrees_iff {keys : List (List Nat × KeySpan)} {done : List (Bytes × Json)} (h : NotedOf (u := u) keys done)
    (hd : AliasesAgree u done) (m : Bytes × Json) : Agrees (u := u) keys m ↔
      ∀ x ∈ done, CanonicalJSONKey u (unquote x.1) = CanonicalJSONKey u (unquote m.1) → SameValue x.2 m.2 := by
  constructor
  · intro ha x hx hxm
    obtain ⟨p, hp⟩ := h.1 x hx
    obtain ⟨w, hw, hwc, hwv⟩ := h.2 _ p hp
    have hs := ha p (hxm ▸ hp)
    rw [hwv, sameJSON_iff] at hs
    by_cases hxw : x = w
    · exact hxw ▸ hs
    · exact (hd.sameValue hx hw hxw hwc.symm).trans hs
  · intro ho prev hp
    obtain ⟨w, hw, hwc, hwv⟩ := h.2 _ prev hp
    rw [hwv, sameJSON_iff]
    exact ho w hw hwc

theorem allAgree_append {keys : List (List Nat × KeySpan)} {done : List (Bytes × Json)} (h : NotedOf (u := u) keys done)
    (hd : AliasesAgree u done) (ms : List (Bytes × Json)) : AllAgree u keys ms ↔ AliasesAgree u (done ++ ms) := by
  induction ms generalizing keys done with
  | nil => simpa [AllAgree] using hd
  | cons m ms ih =>
    have hone : AliasesAgree u (done ++ [m]) ↔ Agrees (u := u) keys m := by
      rw [h.agrees_iff hd, AliasesAgree, List.pairwise_append]
      simp only [List.pairwise_singleton, List.mem_singleton, forall_eq, true_and]
      exact and_iff_right hd
    have hassoc : done ++ m :: ms = done ++ [m] ++ ms := by simp
    rw [AllAgree, ← hone, hassoc]
    constructor
    · rintro ⟨ho, hrest⟩
      exact (ih (h.note m) ho).1 hrest
    · intro hall
      have ho : AliasesAgree u (done ++ [m]) := (List.pairwise_append.1 hall).1
      exact ⟨ho, (ih (h.note m) ho).2 hall⟩

theorem allAgree_iff (ms : List (Bytes × Json)) : AllAgree u [] ms ↔ AliasesAgree u ms := by
  have hnil : NotedOf (u := u) [] [] := ⟨by simp, by simp [keySpan]⟩
  exact allAgree_append hnil List.Pairwise.nil ms

mutual

theorem run_value : ∀ v : Json, ScansValue u text v
  | .null, _, s, _, h => ⟨s.dupErr, run_atom h rfl (by simp) (by simp), by simp [KeysAgree]⟩
  | .bool _, _, s, _, h => ⟨s.dupErr, run_atom h rfl (by simp) (by simp), by simp [KeysAgree]⟩
  | .num _, _, s, _, h => ⟨s.dupErr, run_atom h rfl (by simp) (by simp), by simp [KeysAgree]⟩
  | .str _, _, s, _, h => ⟨s.dupErr, run_atom h rfl (by simp) (by simp), by simp [KeysAgree]⟩
  | .arr [], i, s, _, h => by
    refine ⟨s.dupErr, ?_, by simp [KeysAgree, KeysAgreeItems]⟩
    rw [show toks (.arr []) = [.lbrack, .rbrack] from rfl, Scan.run_cons, step_lbrack h, Option.bind_some, Scan.run_cons,
      step_rbrack (.inl rfl)]
    rfl
  | .arr (v :: vs), i, s, hr, h => by
    have hr : Reads text i ([.lbrack] ++ (List.intercalate [.comma] (toksItems (v :: vs)) ++ [.rbrack])) := hr
    obtain ⟨d, hrun, hd⟩ := run_items (v :: vs) (by simp) (i + 1) hr.right.left (.inl rfl) (s.dec.state :: s.dec.stack) s.stack s.dupErr
    refine ⟨d, ?_, hd⟩
    rw [toks, List.cons_append, Scan.run_cons, step_lbrack h, Option.bind_some, Scan.run_append, hrun, Option.bind_some,
      Scan.run_cons, step_rbrack (.inr rfl)]
    simp only [Option.bind_some, Scan.run, List.length_cons, List.length_append, List.length_nil]
    congr 2
    omega
  | .obj [], i, s, _, h => by
    refine ⟨s.dupErr, ?_, by simp [KeysAgree, KeysAgreeMembers, AliasesAgree]⟩
    rw [show toks (.obj []) = [.lbrace, .rbrace] from rfl, Scan.run_cons, step_lbrace h, Option.bind_some, Scan.run_cons,
      step_rbrace (.inl rfl)]
    rfl
  | .obj (m :: ms), i, s, hr, h => by
    have hr : Reads text i ([.lbrace] ++ (List.intercalate [.comma] (toksMembers (m :: ms)) ++ [.rbrace])) := hr
    have hf : KeyFrame.object.Between := ⟨rfl, rfl, rfl⟩
    obtain ⟨d, f, hrun, hd⟩ := run_members (m :: ms) (by simp) (i + 1) hr.right.left (.inl rfl) (s.dec.state :: s.dec.stack) hf s.stack s.dupErr
    refine ⟨d, ?_, ?_⟩
    · rw [toks, List.cons_append, Scan.run_cons, step_lbrace h, Option.bind_some, Scan.run_append, hrun, Option.bind_some,
        Scan.run_cons, step_rbrace (.inr rfl)]
      simp only [Option.bind_some, Scan.run, List.length_cons, List.length_append, List.length_nil]
      congr 2
      omega
    · rw [hd, KeysAgree, KeyFrame.object, allAgree_iff, and_comm]
      tauto

theorem run_items : ∀ vs : List Json, vs ≠ [] → ∀ i : Nat, Reads text i (List.intercalate [.comma] (toksItems vs)) →
    ∀ {st : TokenState}, st = .arrayStart ∨ st = .arrayValue → ∀ (ds : List TokenState) (fs : List KeyFrame)
    (d₀ : Option (Bytes × Bytes)),
    ∃ d, Scan.run u text i ⟨⟨st, ds⟩, .array :: fs, d₀, true⟩ (List.intercalate [.comma] (toksItems vs)) =
        some ⟨⟨.arrayComma, ds⟩, .array :: fs, d, true⟩ ∧ (d = none ↔ d₀ = none ∧ KeysAgreeItems u vs)
  | [], hne, _, _, _, _, _, _, _ => absurd rfl hne
  | [v], _, i, hr, st, hst, ds, fs, d₀ => by
    have hr : Reads text i (toks v) := by simpa [toksItems] using hr
    obtain ⟨d, hrun, hd⟩ := run_item (run_value v) hr hst ds fs d₀
    exact ⟨d, by simpa [toksItems] using hrun, by simpa [KeysAgreeItems] using hd⟩
  | v :: w :: vs, _, i, hr, st, hst, ds, fs, d₀ => by
    have htoks : List.intercalate [.comma] (toksItems (v :: w :: vs)) =
        toks v ++ ([.comma] ++ List.intercalate [.comma] (toksItems (w :: vs))) := by
      rw [toksItems, toksItems, List.intercalate_cons_cons, List.append_assoc, ← toksItems]
    rw [htoks] at hr ⊢
    obtain ⟨d₁, hrun₁, hd₁⟩ := run_item (run_value v) hr.left hst ds fs d₀
    obtain ⟨d, hrun, hd⟩ := run_items (w :: vs) (by simp) _ hr.right.right (.inr rfl) ds fs d₁
    refine ⟨d, ?_, ?_⟩
    · rw [Scan.run_append, hrun₁, Option.bind_some, List.singleton_append, Scan.run_cons, step_comma_array, Option.bind_some]
      exact hrun
    · rw [hd, hd₁, and_assoc]
      exact Iff.rfl

theorem run_members : ∀ ms : List (Bytes × Json), ms ≠ [] → ∀ i : Nat,
    Reads text i (List.intercalate [.comma] (toksMembers ms)) →
    ∀ {st : TokenState}, st = .objectStart ∨ st = .objectKey → ∀ (ds : List TokenState) {f : KeyFrame}, f.Between →
    ∀ (fs : List KeyFrame) (d₀ : Option (Bytes × Bytes)),
    ∃ d f', Scan.run u text i ⟨⟨st, ds⟩, f :: fs, d₀, true⟩ (List.intercalate [.comma] (toksMembers ms)) =
        some ⟨⟨.objectComma, ds⟩, f' :: fs, d, true⟩ ∧
      (d = none ↔ d₀ = none ∧ KeysAgreeMembers u ms ∧ AllAgree u f.keys ms)
  | [], hne, _, _, _, _, _, _, _, _, _ => absurd rfl hne
  | [(k, v)], _, i, hr, st, hst, ds, f, hf, fs, d₀ => by
    have hr : Reads text i (memberToks (k, v)) := by simpa [toksMembers, memberToks] using hr
    obtain ⟨d, f', hrun, -, -, hd⟩ := run_member (run_value v) hr hst ds hf fs d₀
    refine ⟨d, f', by simpa [toksMembers, memberToks] using hrun, ?_⟩
    simpa [KeysAgreeMembers, AllAgree] using hd
  | (k, v) :: m :: ms, _, i, hr, st, hst, ds, f, hf, fs, d₀ => by
    have htoks : List.intercalate [.comma] (toksMembers ((k, v) :: m :: ms)) =
        memberToks (k, v) ++ ([.comma] ++ List.intercalate [.comma] (toksMembers (m :: ms))) := by
      obtain ⟨k', w⟩ := m
      rw [toksMembers, toksMembers, List.intercalate_cons_cons, List.append_assoc, ← toksMembers, memberToks]
    rw [htoks] at hr ⊢
    obtain ⟨d₁, f₁, hrun₁, hf₁, hkeys, hd₁⟩ := run_member (run_value v) hr.left hst ds hf fs d₀
    obtain ⟨d, f', hrun, hd⟩ := run_members (m :: ms) (by simp) _ hr.right.right (.inr rfl) ds hf₁ fs d₁
    refine ⟨d, f', ?_, ?_⟩
    · rw [Scan.run_append, hrun₁, Option.bind_some, List.singleton_append, Scan.run_cons, step_comma_object, Option.bind_some]
      exact hrun
    · have hagree : AllAgree u f.keys ((k, v) :: m :: ms) ↔ Agrees (u := u) f.keys (k, v) ∧ AllAgree u f₁.keys (m :: ms) := by
        rw [hkeys]; exact Iff.rfl
      have hmem : KeysAgreeMembers u ((k, v) :: m :: ms) ↔ KeysAgree u v ∧ KeysAgreeMembers u (m :: ms) := Iff.rfl
      rw [hd, hd₁, hagree, hmem]
      constructor
      · rintro ⟨⟨h₀, hv, hk⟩, hms, hks⟩
        exact ⟨h₀, ⟨hv, hms⟩, hk, hks⟩
      · rintro ⟨h₀, ⟨hv, hms⟩, hk, hks⟩
        exact ⟨⟨h₀, hv, hk⟩, hms, hks⟩

end

theorem checkJSONKeys_toks {body : Bytes} {v : Json} (h : tokens body = some (toks v)) : CheckJSONKeys u body = .ok () ↔ KeysAgree u v := by
  have hread : Reads (toks v) 0 (toks v) := List.prefix_rfl
  have hawait : AwaitsValue .init := ⟨rfl, by simp [Scan.init], by simp [Scan.init]⟩
  obtain ⟨d, hrun, hd⟩ := run_value (u := u) v 0 .init hread hawait
  have hrun : Scan.run u (toks v) 0 .init (toks v) = some ⟨⟨.topValue, []⟩, [], d, true⟩ := hrun
  have hd : d = none ↔ KeysAgree u v := by simpa [Scan.init] using hd
  rw [CheckJSONKeys, h]
  simp only [hrun, ← hd]
  cases d <;> simp

theorem aliasesAgree_iff {ms : List (Bytes × Json)} (hd : depthMembers ms ≤ maxNestingDepth) : AliasesAgree u ms ↔ OneValue u ms := by
  have hsame : ∀ m ∈ ms, ∀ m' ∈ ms, SameValue m.2 m'.2 ↔ m.2 = m'.2 := fun m hm m' _ => by
    simp [sameValue_iff, depthMembers_le.1 hd m hm]
  constructor
  · intro h m hm m' hm' hc
    by_cases he : m = m'
    · rw [he]
    · exact (hsame m hm m' hm').1 (h.sameValue hm hm' he hc)
  · intro h
    exact List.pairwise_of_forall_mem_list fun m hm m' hm' hc => (hsame m hm m' hm').2 (h m hm m' hm' hc)

mutual

theorem keysAgree_iff : ∀ v : Json, depth v ≤ maxNestingDepth → (KeysAgree u v ↔ Unambiguous u v)
  | .null, _ => Iff.rfl
  | .bool _, _ => Iff.rfl
  | .num _, _ => Iff.rfl
  | .str _, _ => Iff.rfl
  | .arr items, h => keysAgreeItems_iff items (by rw [depth] at h; omega)
  | .obj ms, h => by
    have hd : depthMembers ms ≤ maxNestingDepth := by rw [depth] at h; omega
    exact and_congr (aliasesAgree_iff hd) (keysAgreeMembers_iff ms hd)

theorem keysAgreeItems_iff : ∀ vs : List Json, depthItems vs ≤ maxNestingDepth → (KeysAgreeItems u vs ↔ UnambiguousItems u vs)
  | [], _ => Iff.rfl
  | v :: vs, h => by
    rw [depthItems] at h
    exact and_congr (keysAgree_iff v (by omega)) (keysAgreeItems_iff vs (by omega))

theorem keysAgreeMembers_iff : ∀ ms : List (Bytes × Json), depthMembers ms ≤ maxNestingDepth → (KeysAgreeMembers u ms ↔ UnambiguousMembers u ms)
  | [], _ => Iff.rfl
  | (_, v) :: ms, h => by
    rw [depthMembers] at h
    exact and_congr (keysAgree_iff v (by omega)) (keysAgreeMembers_iff ms (by omega))

end

theorem checkJSONKeys_iff {body : Bytes} {v : Json} (h : parse body = some v) : CheckJSONKeys u body = .ok () ↔ Unambiguous u v := by
  rw [checkJSONKeys_toks (parse_sound h)]
  exact keysAgree_iff v (by simpa using (fits_of_parse h).depth)

end Http
