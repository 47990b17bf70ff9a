import Privahub.Lib.Utf8

/-!
# JSON as Go's `encoding/json` reads and writes it

The reader is the scanner's byte automaton (`lexStep`, one byte to the tokens it completes) under a
stack machine over the tokens (`parseStep`), so neither needs fuel. A parsed tree keeps string and
number literals as they are spelled; `unquote` gives a string literal's content. Struct decoding
matches a key to a field name exactly or by case folding (`matchField`) and the last match wins.
-/

/-- A JSON value. In a parsed tree `num`, `str` and the keys hold the literal's text. -/
inductive Json where
  | null
  | bool (b : Bool)
  | num (lit : Bytes)
  | str (lit : Bytes)
  | arr (items : List Json)
  | obj (members : List (Bytes × Json))

namespace Json

inductive Token where
  | lbrace | rbrace | lbrack | rbrack | colon | comma
  | null
  | bool (b : Bool)
  | num (lit : Bytes)
  | str (lit : Bytes)
deriving DecidableEq

inductive StrState where
  | plain | esc | hex (left : Nat)
deriving DecidableEq

inductive NumState where
  | neg | zero | int | dot | frac | exp | expSign | expDigits
deriving DecidableEq

inductive Lex where
  | idle
  | str (st : StrState) (acc : Bytes)
  | num (st : NumState) (acc : Bytes)
  | word (left : Bytes) (tok : Token)
deriving DecidableEq

def isSpace (b : UInt8) : Bool := b == 32 || b == 9 || b == 13 || b == 10

def isHex (b : UInt8) : Bool := Bytes.isDigit b || (97 ≤ b && b ≤ 102) || (65 ≤ b && b ≤ 70)

/-- The bytes that may follow a backslash, `u` apart. -/
def isEscape (b : UInt8) : Bool := [98, 102, 110, 114, 116, 92, 47, 34].contains b

def idleStep (b : UInt8) : Option (Lex × List Token) :=
  if isSpace b then some (.idle, [])
  else if b = 123 then some (.idle, [.lbrace])
  else if b = 125 then some (.idle, [.rbrace])
  else if b = 91 then some (.idle, [.lbrack])
  else if b = 93 then some (.idle, [.rbrack])
  else if b = 58 then some (.idle, [.colon])
  else if b = 44 then some (.idle, [.comma])
  else if b = 34 then some (.str .plain [], [])
  else if b = 45 then some (.num .neg [45], [])
  else if b = 48 then some (.num .zero [48], [])
  else if Bytes.isDigit b then some (.num .int [b], [])
  else if b = 116 then some (.word [114, 117, 101] (.bool true), [])
  else if b = 102 then some (.word [97, 108, 115, 101] (.bool false), [])
  else if b = 110 then some (.word [117, 108, 108] .null, [])
  else none

def strStep (st : StrState) (b : UInt8) : Option StrState :=
  match st with
  | .plain => if b = 92 then some .esc else if b < 32 then none else some .plain
  | .esc => if b = 117 then some (.hex 4) else if isEscape b then some .plain else none
  | .hex n => if isHex b then some (if n ≤ 1 then .plain else .hex (n - 1)) else none

/-- The next state inside a number, `none` when `b` cannot continue it. -/
def numStep (st : NumState) (b : UInt8) : Option NumState :=
  let e : Bool := b == 101 || b == 69
  match st with
  | .neg => if b = 48 then some .zero else if Bytes.isDigit b then some .int else none
  | .zero => if b = 46 then some .dot else if e then some .exp else none
  | .int => if Bytes.isDigit b then some .int else if b = 46 then some .dot else if e then some .exp else none
  | .dot => if Bytes.isDigit b then some .frac else none
  | .frac => if Bytes.isDigit b then some .frac else if e then some .exp else none
  | .exp => if b = 43 || b = 45 then some .expSign else if Bytes.isDigit b then some .expDigits else none
  | .expSign => if Bytes.isDigit b then some .expDigits else none
  | .expDigits => if Bytes.isDigit b then some .expDigits else none

def NumState.final : NumState → Bool
  | .zero | .int | .frac | .expDigits => true
  | _ => false

def lexStep (st : Lex) (b : UInt8) : Option (Lex × List Token) :=
  match st with
  | .idle => idleStep b
  | .str .plain acc =>
    if b = 34 then some (.idle, [.str acc.reverse]) else (strStep .plain b).map fun st => (.str st (b :: acc), [])
  | .str st acc => (strStep st b).map fun st => (.str st (b :: acc), [])
  | .num st acc =>
    match numStep st b with
    | some st => some (.num st (b :: acc), [])
    | none => if st.final then (idleStep b).map fun r => (r.1, .num acc.reverse :: r.2) else none
  | .word (c :: left) tok => if b = c then some (if left = [] then (.idle, [tok]) else (.word left tok, [])) else none
  | .word [] _ => none

/-- What one byte can do: open or go on with something, close a string, end a number, or end a word. -/
inductive LexStep (b : UInt8) : Lex → Lex × List Token → Prop
  | idle {r} : idleStep b = some r → LexStep b .idle r
  | close {acc} : b = 34 → LexStep b (.str .plain acc) (.idle, [.str acc.reverse])
  | str {st st' acc} : ¬(st = .plain ∧ b = 34) → strStep st b = some st' → LexStep b (.str st acc) (.str st' (b :: acc), [])
  | num {st st' acc} : numStep st b = some st' → LexStep b (.num st acc) (.num st' (b :: acc), [])
  | number {st acc r} : numStep st b = none → st.final = true → idleStep b = some r → LexStep b (.num st acc) (r.1, .num acc.reverse :: r.2)
  | word {tok} : LexStep b (.word [b] tok) (.idle, [tok])
  | letter {left tok} : LexStep b (.word (b :: left) tok) (.word left tok, [])

theorem lexStep_cases {st : Lex} {b : UInt8} {r : Lex × List Token} (h : lexStep st b = some r) : LexStep b st r := by
  cases st with
  | idle => exact .idle h
  | str st acc =>
    by_cases hq : st = .plain ∧ b = 34
    · obtain ⟨rfl, rfl⟩ := hq
      obtain rfl := Option.some.inj h
      exact .close rfl
    · have hopen : (strStep st b).map (fun st => (Lex.str st (b :: acc), ([] : List Token))) = some r := by
        cases st with
        | plain => rwa [lexStep, if_neg fun hb => hq ⟨rfl, hb⟩] at h
        | esc => exact h
        | hex n => exact h
      obtain ⟨st', hst, rfl⟩ := Option.map_eq_some_iff.1 hopen
      exact .str hq hst
  | num st acc =>
    simp only [lexStep] at h
    split at h
    case _ st' hst =>
      obtain rfl := Option.some.inj h
      exact .num hst
    case _ hst =>
      split_ifs at h with hf
      obtain ⟨x, hx, rfl⟩ := Option.map_eq_some_iff.1 h
      exact .number hst hf hx
  | word left tok =>
    cases left with
    | nil => cases h
    | cons c left =>
      simp only [lexStep] at h
      split_ifs at h with hc hl <;> obtain rfl := Option.some.inj h <;> subst hc
      · subst hl
        exact .word
      · exact .letter

def lexRun : Lex → Bytes → Option (Lex × List Token)
  | st, [] => some (st, [])
  | st, b :: bs => (lexStep st b).bind fun r => (lexRun r.1 bs).map fun q => (q.1, r.2 ++ q.2)

/-- What a step keeps of the state, with what it says of the tokens it completes, holds of a run. -/
theorem lexRun_keeps {I : Lex → Prop} {J : Token → Prop} (hstep : ∀ {st b r}, I st → lexStep st b = some r → I r.1 ∧ ∀ t ∈ r.2, J t) {st : Lex} {x : Bytes}
    {r : Lex × List Token} (hi : I st) (h : lexRun st x = some r) : I r.1 ∧ ∀ t ∈ r.2, J t := by
  induction x generalizing st r with
  | nil =>
    obtain rfl := Option.some.inj h
    exact ⟨hi, nofun⟩
  | cons b x ih =>
    obtain ⟨q, hq, h⟩ := Option.bind_eq_some_iff.1 h
    obtain ⟨q', hq', rfl⟩ := Option.map_eq_some_iff.1 h
    obtain ⟨hfirst, htoks⟩ := hstep hi hq
    obtain ⟨hrest, htoks'⟩ := ih hfirst hq'
    exact ⟨hrest, fun t ht => (List.mem_append.1 ht).elim (htoks t) (htoks' t)⟩

def Lex.finish : Lex → Option (List Token)
  | .idle => some []
  | .num st acc => if st.final then some [.num acc.reverse] else none
  | _ => none

def tokens (s : Bytes) : Option (List Token) :=
  (lexRun .idle s).bind fun r => r.1.finish.map fun l => r.2 ++ l

inductive Frame where
  | arr (done : List Json)
  | obj (done : List (Bytes × Json)) (key : Bytes)

inductive Wait where
  | value | valueOrEnd | keyOrEnd | key | colon | commaOrEnd
  | eof (v : Json)

structure Parser where
  stack : List Frame
  wait : Wait

def Parser.complete (stack : List Frame) (v : Json) : Parser :=
  match stack with
  | [] => ⟨[], .eof v⟩
  | .arr done :: fs => ⟨.arr (v :: done) :: fs, .commaOrEnd⟩
  | .obj done key :: fs => ⟨.obj ((key, v) :: done) key :: fs, .commaOrEnd⟩

/-- `maxNestingDepth` of the scanner. -/
def maxNestingDepth : Nat := 10000

def Parser.push (stack : List Frame) (f : Frame) (w : Wait) : Option Parser :=
  if stack.length < maxNestingDepth then some ⟨f :: stack, w⟩ else none

def Parser.value (stack : List Frame) : Token → Option Parser
  | .null => some (complete stack .null)
  | .bool b => some (complete stack (.bool b))
  | .num lit => some (complete stack (.num lit))
  | .str lit => some (complete stack (.str lit))
  | .lbrack => push stack (.arr []) .valueOrEnd
  | .lbrace => push stack (.obj [] []) .keyOrEnd
  | _ => none

def Parser.close : List Frame → Token → Option Parser
  | .arr done :: fs, .rbrack => some (complete fs (.arr done.reverse))
  | .obj done _ :: fs, .rbrace => some (complete fs (.obj done.reverse))
  | _, _ => none

def Parser.key (stack : List Frame) (k : Bytes) : Option Parser :=
  match stack with
  | .obj done _ :: fs => some ⟨.obj done k :: fs, .colon⟩
  | _ => none

def Parser.next (stack : List Frame) : Option Parser :=
  match stack with
  | .arr _ :: _ => some ⟨stack, .value⟩
  | .obj .. :: _ => some ⟨stack, .key⟩
  | [] => none

def parseStep (p : Parser) (t : Token) : Option Parser :=
  match p.wait with
  | .value => Parser.value p.stack t
  | .valueOrEnd => if t = .rbrack then Parser.close p.stack t else Parser.value p.stack t
  | .keyOrEnd =>
    match t with
    | .str k => Parser.key p.stack k
    | .rbrace => Parser.close p.stack t
    | _ => none
  | .key =>
    match t with
    | .str k => Parser.key p.stack k
    | _ => none
  | .colon => if t = .colon then some ⟨p.stack, .value⟩ else none
  | .commaOrEnd => if t = .comma then Parser.next p.stack else Parser.close p.stack t
  | .eof _ => none

def parseTokens (p : Parser) (ts : List Token) : Option Parser := ts.foldlM parseStep p

/-- The single value a text holds, `none` when it is not exactly one well-formed value. -/
def parse (s : Bytes) : Option Json := do
  let ts ← tokens s
  let p ← parseTokens ⟨[], .value⟩ ts
  match p.wait with
  | .eof v => some v
  | _ => none

def hexVal (b : UInt8) : Nat :=
  if b ≤ 57 then b.toNat - 48 else if b ≤ 70 then b.toNat - 55 else b.toNat - 87

def hex4 (a b c d : UInt8) : Nat := ((hexVal a * 16 + hexVal b) * 16 + hexVal c) * 16 + hexVal d

def unescape (b : UInt8) : UInt8 :=
  if b = 98 then 8 else if b = 102 then 12 else if b = 110 then 10 else if b = 114 then 13
  else if b = 116 then 9 else b

/-- The second half of a surrogate pair whose first half is `u`. -/
def lowSurrogate (u : Nat) : Bytes → Option Nat
  | 92 :: 117 :: a :: b :: c :: d :: _ =>
    let v := hex4 a b c d
    if u < 0xDC00 ∧ 0xDC00 ≤ v ∧ v < 0xE000 then some (0x10000 + (u - 0xD800) * 1024 + (v - 0xDC00)) else none
  | _ => none

def unquoteStep (b : UInt8) (t : Bytes) : Bytes × Nat :=
  if b = 92 then
    match t with
    | 117 :: a :: b :: c :: d :: r =>
      let u := hex4 a b c d
      if 0xD800 ≤ u ∧ u < 0xE000 then
        match lowSurrogate u r with
        | some v => (Utf8.encodeRune v, 11)
        | none => (Utf8.encodeRune Utf8.runeError, 5)
      else (Utf8.encodeRune u, 5)
    | c :: _ => ([unescape c], 1)
    | [] => ([], 0)
  else if b.toNat < 0x80 then ([b], 0)
  else (Utf8.encodeRune (Utf8.decodeRune (b :: t)).1, (Utf8.decodeRune (b :: t)).2 - 1)

def unquoteFrom : Nat → Bytes → Bytes
  | _, [] => []
  | k + 1, _ :: t => unquoteFrom k t
  | 0, b :: t => (unquoteStep b t).1 ++ unquoteFrom (unquoteStep b t).2 t

def unquote (lit : Bytes) : Bytes := unquoteFrom 0 lit

def hexLower (n : Nat) : UInt8 := UInt8.ofNat (if n < 10 then 48 + n else 87 + n)

def escapeU (c : Nat) : Bytes :=
  [92, 117, hexLower (c / 4096 % 16), hexLower (c / 256 % 16), hexLower (c / 16 % 16), hexLower (c % 16)]

/-- A byte below `0x80` as the writer spells it, `<`, `>` and `&` escaped. -/
def escapeByte (b : UInt8) : Bytes :=
  if b = 34 ∨ b = 92 then [92, b]
  else if b = 8 then [92, 98]
  else if b = 12 then [92, 102]
  else if b = 10 then [92, 110]
  else if b = 13 then [92, 114]
  else if b = 9 then [92, 116]
  else if b < 32 ∨ b = 60 ∨ b = 62 ∨ b = 38 then escapeU b.toNat
  else [b]

def escapeRune (r : Nat × Bytes) : Bytes :=
  if r.1 < 0x80 then escapeByte (UInt8.ofNat r.1)
  else if Utf8.invalid r then escapeU Utf8.runeError
  else if r.1 = 0x2028 ∨ r.1 = 0x2029 then escapeU r.1
  else r.2

/-- The literal `json.Marshal` writes for a string, without its quotes. -/
def escape (s : Bytes) : Bytes := (Utf8.runes s).flatMap escapeRune

def quote (s : Bytes) : Bytes := 34 :: escape s ++ [34]

def digitsVal (ds : Bytes) : Nat := ds.foldl (fun n d => n * 10 + (d.toNat - 48)) 0

def parseInt (s : Bytes) : Option Int :=
  match s with
  | 45 :: ds => if ds ≠ [] ∧ ds.all Bytes.isDigit then some (-(digitsVal ds : Int)) else none
  | ds => if ds ≠ [] ∧ ds.all Bytes.isDigit then some (digitsVal ds : Int) else none

/-- `strconv.ParseInt(s, 10, 64)` of a number literal. -/
def parseInt64 (s : Bytes) : Option Int :=
  (parseInt s).bind fun n => if -2 ^ 63 ≤ n ∧ n < 2 ^ 63 then some n else none

/-- Case folding against an ASCII field name: besides letters only `ſ` and the Kelvin sign fold to
ASCII; any other rune above it is kept apart from every ASCII name. -/
def foldNameRune (r : Nat × Bytes) : Nat :=
  if 97 ≤ r.1 ∧ r.1 ≤ 122 then r.1 - 32 else if r.1 = 0x17F then 83 else if r.1 = 0x212A then 75 else r.1

def foldName (k : Bytes) : List Nat := (Utf8.runes k).map foldNameRune

def matchField (names : List Bytes) (key : Bytes) : Option Bytes :=
  if key ∈ names then some key else names.find? fun n => foldName n = foldName key

/-- An `int64` field: `null` leaves it alone, anything but an integer in range is an error. -/
def decodeInt (old : Int) : Json → Option Int
  | .num lit => parseInt64 lit
  | .null => some old
  | _ => none

/-- A `string` field. -/
def decodeStr (old : Bytes) : Json → Option Bytes
  | .str lit => some (unquote lit)
  | .null => some old
  | _ => none

/-- `json.Unmarshal` into a struct with fields `names`, `set` decoding one field. A type error is
reported after the whole text was read; the callers drop the value then. -/
def decodeStruct {α : Type} (names : List Bytes) (set : α → Bytes → Json → Option α) (zero : α) (s : Bytes) : Option α :=
  match parse s with
  | some (.obj members) => members.foldlM (fun a m =>
      match matchField names (unquote m.1) with
      | some f => set a f m.2
      | none => some a) zero
  | some .null => some zero
  | _ => none

def member (k v : Bytes) : Bytes := 34 :: k ++ [34, 58] ++ v

def object (ms : List Bytes) : Bytes := 123 :: List.intercalate [44] ms ++ [125]

end Json
