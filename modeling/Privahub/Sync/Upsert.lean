import Privahub.Sync.Wire

/-!
# Writing a decoded record

`Upsert` of `consumer.go`: a row with the record's business key takes all the record's columns but the id, the time of creation and the key. The columns
of fields that the JSON excludes are among them, and a decoded record has zeros there: the soft-delete flags are reset, and so is the token of an
institution (`upsert_frame_iff`).
-/

namespace Sync

/-- What `Upsert` takes from its surroundings. -/
structure Upserter where
  now : Timestamp
  /-- The next value of the table's autoincrement key. -/
  nextID : Int
  /-- `Seal`, with the keyring of the process. -/
  Seal : Bytes → Bytes
  seal_nil : Seal [] = []

inductive UpsertError where
  | tableNotAllowed (table : Bytes)
  | emptyKey (column : Bytes)
  deriving DecidableEq

/-- `Create` writes the default for a zero, and secrets sealed. -/
def Field.stored (p : Upserter) (f : Field) (v : Value) : Value :=
  match if v = f.zero then f.default.getD v else v with
  | .text s => if f.secret then .text (p.Seal s) else .text s
  | v => v

namespace Model

variable (m : Model) (p : Upserter)

def row (e : Record) : Record := fun c => match m.fields.find? fun f => decide (f.column = c) with
  | some f => f.stored p (e c)
  | none => .null

/-- `keyWhere` refuses an empty text in a key column. -/
def emptyKey (e : Record) : Option Bytes := m.businessKey.find? fun c => decide (e c = .text [])

def SameKey (r e : Record) : Prop := ∀ c ∈ m.businessKey, r c = e c

instance (r e : Record) : Decidable (m.SameKey r e) := inferInstanceAs (Decidable (∀ c ∈ m.businessKey, r c = e c))

/-- The columns of `AssignmentColumns`. -/
def updates : List Bytes := m.columns.filter fun c => decide (¬(c = str "id" ∨ c = str "gmt_create" ∨ c ∈ m.businessKey))

def keyless : Bool := !m.hasPK || m.businessKey.isEmpty || m.businessKey == [str "id"]

end Model

/-- The columns `cols` of `e`, the others of `r`. -/
def assign (cols : List Bytes) (r e : Record) : Record := fun c => if c ∈ cols then e c else r c

/-- A zero time of creation or modification becomes `now`; the remote id is not used. -/
def stamped (now : Timestamp) (e : Record) : Record := fun c =>
  if c = str "id" then .int 0
  else if c = str "gmt_create" ∨ c = str "gmt_modified" then match e c with
    | .time t => if t.ns = -62135596800000000000 then .time now else .time t
    | v => v
  else e c

namespace Upserter

variable (p : Upserter)

/-- `INSERT … ON CONFLICT`, with the next id where the row has none. -/
def insert (m : Model) (rows : List Record) (w : Record) : List Record :=
  if rows.any fun r => decide (m.SameKey r w) then rows.map fun r => if m.SameKey r w then assign m.updates r w else r
  else rows ++ [Function.update w (str "id") (.int p.nextID)]

/-- `db.Save`: a new row without an id, else the row of this id or a new one. -/
def save (m : Model) (rows : List Record) (e : Record) : List Record :=
  let w := m.row p e
  if e (str "id") = .int 0 then rows ++ [Function.update w (str "id") (.int p.nextID)]
  else if rows.any fun r => decide (r (str "id") = w (str "id")) then rows.map fun r => if r (str "id") = w (str "id") then assign m.columns r w else r
  else rows ++ [w]

def Upsert (table : Bytes) (e : Record) (rows : List Record) : Except UpsertError (List Record) :=
  match modelOf table with
  | none => .error (.tableNotAllowed table)
  | some m =>
    if m.keyless then .ok (p.save m rows e)
    else match m.emptyKey e with
      | some c => .error (.emptyKey c)
      | none => .ok (p.insert m rows (m.row p (stamped p.now e)))

end Upserter

/-- The flags that `Upsert` resets to restore a row. -/
def softDelete : List Bytes := [str "is_deleted", str "deleted_at"]

theorem hidden_flags : ∀ m ∈ syncModels, ∀ f ∈ m.fields, f.json = none → f.column ∉ softDelete → m.table = TableNode ∧ f.column = str "inst_token" := by
  decide +kernel

theorem keyless_carried : ∀ m ∈ syncModels, m.keyless = true → m.table ≠ TableNode := by decide +kernel

variable {d : Decoder} {p : Upserter} {m : Model} {f : Field} {e r r' : Record} {rows rows' : List Record} {data : Bytes}

theorem decode_hidden (hm : m ∈ syncModels) (hdec : d.Decode m.table data = some e) (hf : f ∈ m.fields) (hhidden : f.json = none) : e f.column = f.zero := by
  unfold Decoder.Decode at hdec
  rw [modelOf_table m hm, Option.bind_eq_bind, Option.bind_some] at hdec
  split_ifs at hdec
  obtain ⟨ms, -, hdec⟩ := Option.bind_eq_some_iff.1 hdec
  simp only at hdec
  split_ifs at hdec
  cases hdec
  simp only [find?_column hm hf, Option.bind_some, Decoder.valueOf, hhidden, Option.getD_some]

theorem node_token : ∀ m ∈ syncModels, m.table = TableNode → ∃ f ∈ m.fields, f.column = str "inst_token" ∧ f.json = none ∧ f.column ∉ softDelete ∧
    f.zero = .text [] ∧ f.default = none ∧ f.secret = true ∧ f.column ∈ m.updates := by
  decide +kernel

theorem key_columns : ∀ m ∈ syncModels, m.keyless = false → ∀ c ∈ m.businessKey, c ≠ str "id" ∧ c ≠ str "gmt_create" ∧ c ≠ str "gmt_modified" ∧
    ∃ f ∈ m.fields, f.column = c ∧ f.default = none ∧ f.secret = false := by
  decide +kernel

theorem row_column (hm : m ∈ syncModels) (hf : f ∈ m.fields) (e : Record) : m.row p e f.column = f.stored p (e f.column) := by
  simp only [Model.row, find?_column hm hf]

theorem stored_plain (hdefault : f.default = none) (hsecret : f.secret = false) (v : Value) : f.stored p v = v := by
  have hv : (if v = f.zero then f.default.getD v else v) = v := by
    rw [hdefault, Option.getD_none, ite_self]
  rw [Field.stored, hv]
  cases v with
  | text s => exact if_neg (by rw [hsecret]; exact Bool.false_ne_true)
  | _ => rfl

theorem sameKey_row (hm : m ∈ syncModels) (hk : m.keyless = false) (h : m.SameKey r e) : m.SameKey r (m.row p (stamped p.now e)) := by
  intro c hc
  obtain ⟨hid, hcreate, hmodified, f, hf, rfl, hdefault, hsecret⟩ := key_columns m hm hk c hc
  rw [row_column hm hf, stored_plain hdefault hsecret, h _ hc, stamped, if_neg hid, if_neg (not_or.2 ⟨hcreate, hmodified⟩)]

theorem upsert_row (hm : m ∈ syncModels) (hk : m.keyless = false) (hok : p.Upsert m.table e rows = .ok rows') {i : Nat} (hr : rows[i]? = some r)
    (hr' : rows'[i]? = some r') (hkey : m.SameKey r e) : r' = assign m.updates r (m.row p (stamped p.now e)) := by
  have hsame := sameKey_row (p := p) hm hk hkey
  have hany : (rows.any fun r => decide (m.SameKey r (m.row p (stamped p.now e)))) = true :=
    List.any_eq_true.2 ⟨r, List.mem_of_getElem? hr, decide_eq_true hsame⟩
  rw [Upserter.Upsert, modelOf_table m hm] at hok
  simp only [hk, Bool.false_eq_true, if_false] at hok
  split at hok
  · cases hok
  · cases hok
    rw [Upserter.insert, if_pos hany, List.getElem?_map, hr] at hr'
    cases hr'
    exact if_pos hsame

/-- Of the columns that no message carries, other than the flags of a deleted row, a row of the record's key keeps all exactly if it is no node or has no
token. -/
theorem upsert_frame_iff (hm : m ∈ syncModels) (hdec : d.Decode m.table data = some e) (hok : p.Upsert m.table e rows = .ok rows') {i : Nat}
    (hr : rows[i]? = some r) (hr' : rows'[i]? = some r') (hkey : m.SameKey r e) :
    (∀ f ∈ m.fields, f.json = none → f.column ∉ softDelete → r' f.column = r f.column) ↔ m.table ≠ TableNode ∨ r (str "inst_token") = .text [] := by
  by_cases hnode : m.table = TableNode
  · have hk : m.keyless = false := by
      rw [← Bool.not_eq_true]
      exact fun hk => keyless_carried m hm hk hnode
    obtain ⟨f, hf, hcolumn, hhidden, hflag, hzero, hdefault, hsecret, hupdate⟩ := node_token m hm hnode
    have hstored : m.row p (stamped p.now e) f.column = .text [] := by
      have he : stamped p.now e f.column = .text [] := by
        rw [← hzero, ← decode_hidden hm hdec hf hhidden, hcolumn]
        rfl
      have hv : (if Value.text [] = f.zero then f.default.getD (.text []) else .text []) = .text [] := by
        rw [hdefault, Option.getD_none, ite_self]
      rw [row_column hm hf, he, Field.stored, hv]
      show (if f.secret then Value.text (p.Seal []) else _) = _
      rw [if_pos hsecret, p.seal_nil]
    have htoken : r' (str "inst_token") = .text [] := by
      rw [upsert_row hm hk hok hr hr' hkey, ← hcolumn, assign, if_pos hupdate, hstored]
    constructor
    · intro h
      have hsame := h f hf hhidden hflag
      rw [hcolumn] at hsame
      exact Or.inr (hsame.symm.trans htoken)
    · rintro (h | h) g hg hghidden hgflag
      · exact absurd hnode h
      · rw [(hidden_flags m hm g hg hghidden hgflag).2, htoken, h]
  · refine iff_of_true (fun f hf hhidden hflag => ?_) (Or.inl hnode)
    exact absurd (hidden_flags m hm f hf hhidden hflag).1 hnode

def plainUpserter : Upserter := ⟨⟨0, 0⟩, 2, id, rfl⟩

def aliceNode (token : Bytes) : Record := fun c =>
  if c = str "id" then .int 1
  else if c = str "node_id" then .text (str "alice")
  else if c = str "inst_token" then .text token
  else if c = str "is_deleted" ∨ c = str "mode" then .int 0
  else if c = str "deleted_at" then .null
  else if c = str "gmt_create" ∨ c = str "gmt_modified" then .time ⟨0, 0⟩
  else .text []

def aliceUpdate : Bytes := str "\x7b\"id\":9,\"node_id\":\"alice\",\"name\":\"Alice\"\x7d"

def updatedNode (token : Bytes) : Option (List (Value × Value)) := do
  let e ← plainDecoder.Decode TableNode aliceUpdate
  match plainUpserter.Upsert TableNode e [aliceNode token] with
  | .ok rows => some (rows.map fun r => (r (str "name"), r (str "inst_token")))
  | .error _ => none

/-- A message without a token blanks the token. -/
theorem token_blanked : aliceNode (str "jwt") (str "inst_token") = .text (str "jwt") ∧ updatedNode (str "jwt") = some [(.text (str "Alice"), .text [])] := by
  decide +kernel

/-- Without a token nothing is lost. -/
theorem tokenless_kept : ∃ e rows' r', plainDecoder.Decode TableNode aliceUpdate = some e ∧ plainUpserter.Upsert TableNode e [aliceNode []] = .ok rows' ∧
    rows'[0]? = some r' ∧ ∀ f ∈ NodeDO.fields, f.json = none → f.column ∉ softDelete → r' f.column = aliceNode [] f.column := by
  have hrun : (plainDecoder.Decode TableNode aliceUpdate).any (fun e => decide (NodeDO.SameKey (aliceNode []) e) &&
      ((plainUpserter.Upsert TableNode e [aliceNode []]).toOption.map List.length == some 1)) = true := by
    decide +kernel
  cases hdec : plainDecoder.Decode TableNode aliceUpdate with
  | none => simp [hdec] at hrun
  | some e =>
    rw [hdec, Option.any_some, Bool.and_eq_true, decide_eq_true_eq, beq_iff_eq] at hrun
    obtain ⟨hkey, hlen⟩ := hrun
    cases hok : plainUpserter.Upsert TableNode e [aliceNode []] with
    | error err => simp [hok, Except.toOption] at hlen
    | ok rows' =>
      rw [hok] at hlen
      obtain ⟨r', rfl⟩ := List.length_eq_one_iff.1 (Option.some.inj hlen)
      have hm : NodeDO ∈ syncModels := by decide +kernel
      have hr : [aliceNode []][0]? = some (aliceNode []) := rfl
      have hr' : [r'][0]? = some r' := rfl
      have hempty : aliceNode [] (str "inst_token") = .text [] := by decide +kernel
      exact ⟨e, _, r', rfl, hok, rfl, (upsert_frame_iff hm hdec hok hr hr' hkey).2 (Or.inr hempty)⟩

end Sync
