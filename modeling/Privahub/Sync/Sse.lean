import Privahub.Lib.Scanner
import Privahub.Lib.JsonWrite

/-!
# The event stream from the center to an edge

`sse_server.go` writes frames, one at a time under the lock of the session; `EdgeClient.consume` in `sync/edge.go` reads the stream line by line and
hands an event to `HandleEvent` at every blank line. Whatever pings and comments stand between the frames and however the stream is cut, the events
are the payloads in order (`consume_stream`), as long as no line reaches the scanner's limit and no table is called like a ping.
-/

namespace Sse

/-- `SyncData`, with its data as a JSON value. -/
structure SyncData where
  tableName : Bytes
  lastUpdateTime : Bytes
  action : Bytes
  data : Option {v : Json // v.Wf}

def SyncData.members (d : SyncData) : List (Bytes × Json) :=
  [(str "tableName", .str (Json.escape d.tableName))] ++
    (if d.lastUpdateTime = [] then [] else [(str "lastUpdateTime", .str (Json.escape d.lastUpdateTime))]) ++
    (if d.action = [] then [] else [(str "action", .str (Json.escape d.action))]) ++
    (d.data.map fun v => (str "data", v.val)).toList

def SyncData.marshal (d : SyncData) : Bytes := Json.render (.obj d.members)

def SsePingMsg : Bytes := str "ping"

def sseId (table : Bytes) : Bytes := table.filter fun b => b ≠ 10 ∧ b ≠ 13

def sseFrame (d : SyncData) : Bytes := str "id:" ++ sseId d.tableName ++ 10 :: (str "data:" ++ d.marshal) ++ [10, 10]

def pingFrame : Bytes := str "id:" ++ SsePingMsg ++ 10 :: (str ": " ++ SsePingMsg) ++ 10 :: (str "data:" ++ SsePingMsg) ++ [10, 10]

/-- What may stand in a stream: frames, and between them comment lines and blank lines. -/
inductive Item where
  | data (d : SyncData)
  | ping
  | comment (text : Bytes)
  | blank

def Item.bytes : Item → Bytes
  | .data d => sseFrame d
  | .ping => pingFrame
  | .comment text => 58 :: text.filter (· ≠ 10) ++ [10]
  | .blank => [10]

def stream (items : List Item) : Bytes := items.flatMap Item.bytes

def payloads (items : List Item) : List SyncData := items.filterMap fun
  | .data d => some d
  | _ => none

structure Event where
  id : Bytes
  data : Bytes
  deriving DecidableEq

/-- `strings.Cut(line, ":")` with the space after the colon gone. -/
def cutField (line : Bytes) : Bytes × Bytes :=
  let value := (line.dropWhile (· ≠ 58)).drop 1
  (line.takeWhile (· ≠ 58), if value.head? = some 32 then value.drop 1 else value)

def field (cur : Event) (line : Bytes) : Event :=
  let (name, value) := cutField line
  if name = str "id" then { cur with id := value }
  else if name = str "data" then { cur with data := if cur.data ≠ [] then cur.data ++ 10 :: value else value }
  else cur

/-- The events of the lines, after those that have made `cur`. -/
def dispatch : Event → List Bytes → List Event
  | _, [] => []
  | cur, line :: lines =>
    if line = [] then (if cur.data ≠ [] then [cur] else []) ++ dispatch ⟨[], []⟩ lines
    else if line.head? = some 58 then dispatch cur lines
    else dispatch (field cur line) lines

/-- `HandleEvent` goes on with these. -/
def Event.handled (e : Event) : Bool := e.id != SsePingMsg && e.data != SsePingMsg

def maxLine : Nat := 64 * 1024 * 1024

/-- The events that are handled, and whether the stream is given up at a line too long. -/
def consume (chunks : List Chunk) : List Event × Bool :=
  let sc : Scanner maxLine := ⟨chunks, [], 0, 64 * 1024, by decide, by decide⟩
  let r := sc.scan
  ((dispatch ⟨[], []⟩ r.1).filter Event.handled, r.2)

variable {items : List Item} {item : Item} {chunks : List Chunk} {d : SyncData}

def Item.lines : Item → List Bytes
  | .data d => [str "id:" ++ sseId d.tableName, str "data:" ++ d.marshal, []]
  | .ping => [str "id:" ++ SsePingMsg, str ": " ++ SsePingMsg, str "data:" ++ SsePingMsg, []]
  | .comment text => [58 :: text.filter (· ≠ 10)]
  | .blank => [[]]

def Item.Short (item : Item) : Prop := ∀ l ∈ item.lines, l.length < maxLine

theorem wf_members (d : SyncData) : Json.Wf (.obj d.members) := by
  have hk : Json.StrLit (str "tableName") ∧ Json.StrLit (str "lastUpdateTime") ∧ Json.StrLit (str "action") ∧ Json.StrLit (str "data") := by decide
  have hs := Json.strLit_escape
  unfold SyncData.members
  cases d.data with
  | none => split_ifs <;> simp [Json.Wf, Json.WfMembers, hk, hs]
  | some v => split_ifs <;> simp [Json.Wf, Json.WfMembers, hk, hs, v.property]

theorem le_of_mem_marshal {b : UInt8} (hb : b ∈ d.marshal) : 32 ≤ b := Json.le_of_mem_render _ (wf_members d) b hb

theorem marshal_eq (d : SyncData) : ∃ t, d.marshal = 123 :: t ++ [125] := ⟨_, rfl⟩

theorem break_not_mem_lines (item : Item) : ∀ l ∈ item.lines, 10 ∉ l := by
  intro l hl hb
  cases item with
  | data d =>
    rcases List.mem_cons.1 hl with rfl | hl
    · rcases List.mem_append.1 hb with hb | hb
      · revert hb
        decide
      · simpa using (List.mem_filter.1 hb).2
    rcases List.mem_cons.1 hl with rfl | hl
    · rcases List.mem_append.1 hb with hb | hb
      · revert hb
        decide
      · exact absurd (le_of_mem_marshal hb) (by decide)
    · obtain rfl := List.mem_singleton.1 hl
      cases hb
  | ping =>
    have hno : ∀ l ∈ Item.ping.lines, 10 ∉ l := by decide
    exact hno l hl hb
  | comment text =>
    obtain rfl := List.mem_singleton.1 hl
    rcases List.mem_cons.1 hb with hb | hb
    · cases hb
    · simpa using (List.mem_filter.1 hb).2
  | blank =>
    obtain rfl := List.mem_singleton.1 hl
    cases hb

theorem bytes_eq (item : Item) : item.bytes = item.lines.flatMap fun l => l ++ [10] := by
  cases item with
  | data d => simp [Item.bytes, Item.lines, sseFrame]
  | ping => decide
  | comment text => simp [Item.bytes, Item.lines]
  | blank => rfl

theorem linesFrom_stream (items : List Item) : Bytes.linesFrom [] (stream items) = items.flatMap Item.lines := by
  induction items with
  | nil => rfl
  | cons item items ih =>
    show Bytes.linesFrom [] (item.bytes ++ stream items) = _
    rw [bytes_eq, Bytes.linesFrom_lines (break_not_mem_lines item), ih, List.flatMap_cons]

def readId (table : Bytes) : Bytes := if (sseId table).head? = some 32 then (sseId table).drop 1 else sseId table

def Item.events : Item → List Event
  | .data d => [⟨readId d.tableName, d.marshal⟩]
  | .ping => [⟨SsePingMsg, SsePingMsg⟩]
  | .comment _ | .blank => []

theorem dropCR_of_getLast {l : Bytes} (h : l.getLast? ≠ some 13) : Bytes.dropCR l = l := if_neg h

theorem dropCR_id (table : Bytes) : Bytes.dropCR (str "id:" ++ sseId table) = str "id:" ++ sseId table := by
  refine dropCR_of_getLast fun h => ?_
  rcases List.mem_append.1 (List.mem_of_getLast? h) with hm | hm
  · revert hm
    decide
  · simpa using (List.mem_filter.1 hm).2

theorem cutField_id (t : Bytes) : cutField (str "id:" ++ t) = (str "id", if t.head? = some 32 then t.drop 1 else t) := rfl

theorem cutField_data (t : Bytes) : cutField (str "data:" ++ t) = (str "data", if t.head? = some 32 then t.drop 1 else t) := rfl

theorem field_id (cur : Event) (t : Bytes) : field cur (str "id:" ++ t) = { cur with id := if t.head? = some 32 then t.drop 1 else t } := by
  rw [field, cutField_id]
  exact if_pos rfl

theorem field_data (id t : Bytes) (h : t.head? ≠ some 32) : field ⟨id, []⟩ (str "data:" ++ t) = ⟨id, t⟩ := by
  have hne : str "data" ≠ str "id" := by decide
  rw [field, cutField_data, if_neg h]
  simp only [if_neg hne, if_true]
  rfl

theorem dispatch_field {line : Bytes} {b : UInt8} (cur : Event) (lines : List Bytes) (hhead : line.head? = some b) (hb : b ≠ 58) :
    dispatch cur (line :: lines) = dispatch (field cur line) lines := by
  have hne : line ≠ [] := by
    rintro rfl
    cases hhead
  have hcolon : line.head? ≠ some 58 := by
    rw [hhead]
    exact fun h => hb (Option.some.inj h)
  rw [dispatch, if_neg hne, if_neg hcolon]

theorem dispatch_lines (item : Item) (rest : List Bytes) :
    dispatch ⟨[], []⟩ (item.lines.map Bytes.dropCR ++ rest) = item.events ++ dispatch ⟨[], []⟩ rest := by
  cases item with
  | data d =>
    obtain ⟨t, ht⟩ := marshal_eq d
    have hid := dropCR_id d.tableName
    have hdata : Bytes.dropCR (str "data:" ++ d.marshal) = str "data:" ++ d.marshal := by
      refine dropCR_of_getLast fun h => ?_
      rw [ht, ← List.append_assoc, List.getLast?_concat] at h
      cases h
    have hhead : d.marshal.head? ≠ some 32 := by
      rw [ht]
      exact fun h => absurd (Option.some.inj h) (by decide)
    have hne : d.marshal ≠ [] := by
      rw [ht]
      exact List.cons_ne_nil _ _
    show dispatch ⟨[], []⟩ (Bytes.dropCR (str "id:" ++ sseId d.tableName) :: Bytes.dropCR (str "data:" ++ d.marshal) :: [] :: rest) = _
    rw [hid, hdata, dispatch_field (b := 105) _ _ rfl (by decide), field_id, dispatch_field (b := 100) _ _ rfl (by decide), field_data _ _ hhead, dispatch,
      if_pos rfl]
    simp only [if_pos hne]
    rfl
  | ping => rfl
  | comment text =>
    have hcomment : ∀ t, ∃ u, Bytes.dropCR (58 :: t) = 58 :: u := by
      intro t
      unfold Bytes.dropCR
      split_ifs with h
      · cases t with
        | nil => cases h
        | cons b t => exact ⟨_, List.dropLast_cons_cons⟩
      · exact ⟨t, rfl⟩
    obtain ⟨u, hu⟩ := hcomment (text.filter (· ≠ 10))
    show dispatch ⟨[], []⟩ (Bytes.dropCR (58 :: text.filter (· ≠ 10)) :: rest) = _
    rw [hu, dispatch, if_neg (List.cons_ne_nil _ _)]
    exact if_pos rfl
  | blank => rfl

theorem dispatch_stream (items : List Item) : dispatch ⟨[], []⟩ ((items.flatMap Item.lines).map Bytes.dropCR) = items.flatMap Item.events := by
  induction items with
  | nil => rfl
  | cons item items ih => rw [List.flatMap_cons, List.map_append, dispatch_lines, ih, List.flatMap_cons]

theorem consume_eq (chunks : List Chunk) : consume chunks =
    ((dispatch ⟨[], []⟩ (Bytes.scanLines maxLine (Chunk.stream chunks))).filter Event.handled,
      (Bytes.linesFrom [] (Chunk.stream chunks)).any fun l => maxLine ≤ l.length) := by
  unfold consume
  simp only [Scanner.scan_eq (show 0 < maxLine by decide)]
  rfl

def NoPing (table : Bytes) : Prop := sseId table ≠ SsePingMsg ∧ sseId table ≠ 32 :: SsePingMsg

theorem readId_ne_ping {table : Bytes} (h : NoPing table) : readId table ≠ SsePingMsg := by
  unfold readId
  split_ifs with hspace
  · intro hping
    obtain ⟨t, ht⟩ : ∃ t, sseId table = 32 :: t := by
      cases hid : sseId table with
      | nil => simp [hid] at hspace
      | cons b t =>
        rw [hid] at hspace
        exact ⟨t, by rw [Option.some.inj hspace]⟩
    rw [ht] at hping
    exact h.2 (ht.trans (congrArg _ hping))
  · exact h.1

theorem handled_events (hping : ∀ d ∈ payloads items, NoPing d.tableName) :
    ((items.flatMap Item.events).filter Event.handled).map Event.data = (payloads items).map SyncData.marshal := by
  induction items with
  | nil => rfl
  | cons item items ih =>
    rw [List.flatMap_cons, List.filter_append, List.map_append]
    cases item with
    | data d =>
      have hd := readId_ne_ping (hping d List.mem_cons_self)
      obtain ⟨t, ht⟩ := marshal_eq d
      have hdata : d.marshal ≠ SsePingMsg := by
        rw [ht]
        exact fun h => absurd (List.cons.inj h).1 (by decide)
      have hkept : Event.handled ⟨readId d.tableName, d.marshal⟩ = true := by simp [Event.handled, hd, hdata]
      rw [ih fun d hd => hping d (List.mem_cons_of_mem _ hd)]
      show (List.filter Event.handled [_]).map Event.data ++ _ = _
      rw [List.filter_cons_of_pos hkept]
      rfl
    | ping => exact ih hping
    | comment text => exact ih hping
    | blank => exact ih hping

theorem consume_stream (hstream : Chunk.stream chunks = stream items) (hshort : ∀ item ∈ items, item.Short) (hping : ∀ d ∈ payloads items, NoPing d.tableName) :
    (consume chunks).1.map Event.data = (payloads items).map SyncData.marshal ∧ (consume chunks).2 = false := by
  have hall : ∀ l ∈ items.flatMap Item.lines, l.length < maxLine := by
    intro l hl
    obtain ⟨item, hitem, hl⟩ := List.mem_flatMap.1 hl
    exact hshort item hitem l hl
  rw [consume_eq, hstream, Bytes.scanLines, linesFrom_stream, List.takeWhile_eq_self_iff.2 fun l hl => decide_eq_true (hall l hl), dispatch_stream]
  refine ⟨handled_events hping, ?_⟩
  rw [List.any_eq_false]
  intro l hl
  simpa using hall l hl

def bytewise (s : Bytes) : List Chunk := s.map fun b => ⟨[b], List.cons_ne_nil _ _⟩

theorem stream_bytewise (s : Bytes) : Chunk.stream (bytewise s) = s := by
  induction s with
  | nil => rfl
  | cons b s ih => exact congrArg (b :: ·) ih

def created (table action : Bytes) : SyncData := ⟨table, [], action, none⟩

def twoRows : List Item :=
  [.data (created (str "project") (str "create")), .ping, .comment (str " waiting"), .data (created (str "node") (str "create")), .blank]

theorem consume_twoRows : (consume (bytewise (stream twoRows))).1.map Event.data =
    [(created (str "project") (str "create")).marshal, (created (str "node") (str "create")).marshal] ∧ (consume (bytewise (stream twoRows))).2 = false := by
  have hshort : ∀ item ∈ twoRows, ∀ l ∈ item.lines, l.length < maxLine := by decide +kernel
  have hping : ∀ d ∈ [created (str "project") (str "create"), created (str "node") (str "create")], NoPing d.tableName := by
    intro d hd
    rcases List.mem_cons.1 hd with rfl | hd
    · exact ⟨by decide, by decide⟩
    · obtain rfl := List.mem_singleton.1 hd
      exact ⟨by decide, by decide⟩
  exact consume_stream (stream_bytewise _) hshort hping

theorem length_le_escape (n : Nat) : n ≤ (Json.escape (List.replicate n 97)).length := by
  induction n with
  | zero => exact Nat.zero_le _
  | succ n ih =>
    have hone : Json.escape (97 :: List.replicate n 97) = 97 :: Json.escape (List.replicate n 97) := by
      rw [Json.escape, Utf8.runes_ascii_cons _ (by decide)]
      rfl
    rw [List.replicate_succ, hone, List.length_cons]
    omega

theorem length_action_le (table action : Bytes) (h : action ≠ []) : (Json.escape action).length ≤ (created table action).marshal.length := by
  have hmarshal : (created table action).marshal =
      Json.object [Json.member (str "tableName") (Json.quote table), Json.member (str "action") (Json.quote action)] := by
    unfold SyncData.marshal SyncData.members created
    rw [if_pos rfl, if_neg h]
    rfl
  rw [hmarshal]
  simp only [Json.object, List.intercalate_cons_cons, List.intercalate_singleton, Json.member, Json.quote, List.length_append, List.length_cons]
  omega

theorem consume_long (hid : (str "id:" ++ sseId d.tableName).length < maxLine) (hlong : maxLine ≤ d.marshal.length) :
    consume (bytewise (stream [.data d])) = ([], true) := by
  have hdata : ¬ (str "data:" ++ d.marshal).length < maxLine := by
    rw [List.length_append]
    omega
  rw [consume_eq, stream_bytewise, Bytes.scanLines, linesFrom_stream]
  show (((dispatch ⟨[], []⟩ ((((str "id:" ++ sseId d.tableName) :: (str "data:" ++ d.marshal) :: [[]]).takeWhile fun l => l.length < maxLine).map
    Bytes.dropCR)).filter Event.handled), ((str "id:" ++ sseId d.tableName) :: (str "data:" ++ d.marshal) :: [[]]).any fun l => maxLine ≤ l.length) = _
  rw [List.takeWhile_cons, if_pos (decide_eq_true hid), List.takeWhile_cons, if_neg (by simpa using hdata), List.map_singleton, dropCR_id,
    dispatch_field (b := 105) _ _ rfl (by decide), List.any_cons, List.any_cons, decide_eq_true (not_lt.1 hdata), Bool.true_or, Bool.or_true]
  rfl

/-- A row of a table called like a ping, and one whose text is as long as the scanner's buffer. -/
theorem stream_not_consumed :
    ((consume (bytewise (stream [.data (created SsePingMsg (str "create"))]))).1.map Event.data ≠ [(created SsePingMsg (str "create")).marshal]) ∧
    ((consume (bytewise (stream [.data (created (str "project") (List.replicate maxLine 97))]))).1.map Event.data ≠
      [(created (str "project") (List.replicate maxLine 97)).marshal]) := by
  constructor
  · have hshort : ∀ l ∈ [Item.data (created SsePingMsg (str "create"))].flatMap Item.lines, l.length < maxLine := by decide +kernel
    rw [consume_eq, stream_bytewise, Bytes.scanLines, linesFrom_stream, List.takeWhile_eq_self_iff.2 fun l hl => decide_eq_true (hshort l hl), dispatch_stream]
    exact (List.cons_ne_nil _ _).symm
  · have hne : List.replicate maxLine (97 : UInt8) ≠ [] := List.ne_nil_of_length_pos (by rw [List.length_replicate]; decide)
    have hlong := (length_le_escape maxLine).trans (length_action_le (str "project") _ hne)
    have hid : (str "id:" ++ sseId (str "project")).length < maxLine := by decide
    rw [consume_long hid hlong]
    exact (List.cons_ne_nil _ _).symm

end Sse
