import Privahub.Audit.RowText

/-!
# The spool

`internal/audit/spool.go`: the directory of JSON-lines files that hold rows the database did not
take. Rows are appended to the active file; `rotate` moves it aside for replay. A write may fail
after any number of bytes, so a file may end within a line; `Whole` files do not, and only they keep
the lines of the next append apart (`linesFrom_append`).
-/

namespace Audit

/-- The active file, and the rotated ones in the order of the times in their names. -/
structure Spool where
  active : Bytes
  replay : List (Nat × Bytes)
  sorted : replay.Pairwise fun a b => a.1 < b.1
deriving DecidableEq

/-- What becomes of a file operation: done, or an error after so many bytes. -/
inductive Io where
  | done
  | error (written : Nat)
deriving DecidableEq

namespace Spool

def size (sp : Spool) : Nat := sp.active.length + (sp.replay.map fun f => f.2.length).sum

def empty : Spool := ⟨[], [], .nil⟩

def encode (rows : List AuditLogDO) : Bytes := rows.flatMap fun r => r.marshal ++ [10]

def append (sp : Spool) (maxBytes : Int) (rows : List AuditLogDO) (io : Io) : Spool × Bool :=
  if 0 < maxBytes ∧ maxBytes < sp.size + (encode rows).length then (sp, false)
  else match io with
    | .done => ({ sp with active := sp.active ++ encode rows }, true)
    | .error written => ({ sp with active := sp.active ++ (encode rows).take written }, false)

def rotate (sp : Spool) (now : Nat) : Option Spool :=
  if sp.active = [] then some sp
  else if h : ∀ f ∈ sp.replay, f.1 < now then
    some ⟨[], sp.replay ++ [(now, sp.active)], List.pairwise_append.2 ⟨sp.sorted, List.pairwise_singleton .., by simpa using h⟩⟩
  else none

def files (sp : Spool) : List Nat := sp.replay.map Prod.fst

def content (sp : Spool) (name : Nat) : Option Bytes := (sp.replay.find? fun f => f.1 = name).map Prod.snd

def remove (sp : Spool) (name : Nat) : Spool :=
  { sp with replay := sp.replay.filter fun f => f.1 ≠ name, sorted := sp.sorted.filter _ }

end Spool

def maxSpoolLine : Nat := 4 * 1024 * 1024

/-- The row of a line, freed of what the chain writer assigns; `none` for a corrupt line. -/
def spoolRow (line : Bytes) : Option AuditLogDO :=
  (AuditLogDO.unmarshal line).bind fun r =>
    if r.eventId = [] then none else some { r with id := 0, seq := 0, prevHash := [], hash := [] }

def isBlank (line : Bytes) : Bool := Utf8.trimSpace line == []

structure SpoolRead where
  rows : List AuditLogDO
  bad : Nat
  err : Bool

def readSpoolFile (content : Bytes) : SpoolRead where
  rows := ((Bytes.scanLines maxSpoolLine content).filter fun l => !isBlank l).filterMap spoolRow
  bad := (((Bytes.scanLines maxSpoolLine content).filter fun l => !isBlank l).filter fun l => (spoolRow l).isNone).length
  err := (Bytes.linesFrom [] content).any fun l => maxSpoolLine ≤ l.length

def Whole (content : Bytes) : Prop := content.getLast?.all (· = 10)

instance (content : Bytes) : Decidable (Whole content) := inferInstanceAs (Decidable (_ = true))

def HoldsLine (content : Bytes) (r : AuditLogDO) : Prop := ∃ a b, content = a ++ (r.marshal ++ 10 :: b) ∧ Whole a

theorem linesFrom_append {a b : Bytes} (ha : Whole a) : Bytes.linesFrom [] (a ++ b) = Bytes.linesFrom [] a ++ Bytes.linesFrom [] b := by
  have key : ∀ (a acc : Bytes), a ≠ [] → Whole a →
      Bytes.linesFrom acc (a ++ b) = Bytes.linesFrom acc a ++ Bytes.linesFrom [] b := by
    intro a
    induction a with
    | nil => exact fun _ h => absurd rfl h
    | cons x a ih =>
      intro acc _ hw
      rcases eq_or_ne a [] with rfl | hne
      · have hx : x = 10 := by simpa [Whole] using hw
        simp [Bytes.linesFrom, hx]
      · have hw' : Whole a := by
          obtain ⟨y, ys, rfl⟩ := List.exists_cons_of_ne_nil hne
          simpa [Whole, List.getLast?_cons_cons] using hw
        rw [List.cons_append, Bytes.linesFrom, Bytes.linesFrom]
        split_ifs
        · rw [ih [] hne hw', List.cons_append]
        · exact ih _ hne hw'
  rcases eq_or_ne a [] with rfl | hne
  · rfl
  · exact key a [] hne ha

theorem newline_not_mem_marshal (r : AuditLogDO) : (10 : UInt8) ∉ r.marshal := fun h =>
  absurd (AuditLogDO.le_of_mem_marshal h) (by decide)

theorem HoldsLine.mem_linesFrom {content : Bytes} {r : AuditLogDO} (h : HoldsLine content r) :
    r.marshal ∈ Bytes.linesFrom [] content := by
  obtain ⟨a, b, rfl, ha⟩ := h
  rw [linesFrom_append ha, Bytes.linesFrom_break (newline_not_mem_marshal r)]
  simp

theorem HoldsLine.append {content : Bytes} {r : AuditLogDO} (h : HoldsLine content r) (d : Bytes) :
    HoldsLine (content ++ d) r := by
  obtain ⟨a, b, rfl, ha⟩ := h
  exact ⟨a, b ++ d, by simp, ha⟩

theorem whole_append {a b : Bytes} (ha : Whole a) (hb : Whole b) : Whole (a ++ b) := by
  rcases eq_or_ne b [] with rfl | hne
  · rwa [List.append_nil]
  · rwa [Whole, List.getLast?_append_of_ne_nil _ hne]

theorem whole_encode (rows : List AuditLogDO) : Whole (Spool.encode rows) := by
  induction rows with
  | nil => rfl
  | cons r rows ih =>
    have he : Spool.encode (r :: rows) = (r.marshal ++ [10]) ++ Spool.encode rows := by simp [Spool.encode]
    rw [he]
    exact whole_append (by simp [Whole]) ih

theorem holdsLine_encode {content : Bytes} (hw : Whole content) {rows : List AuditLogDO} {r : AuditLogDO} (hr : r ∈ rows) :
    HoldsLine (content ++ Spool.encode rows) r := by
  obtain ⟨pre, post, rfl⟩ := List.append_of_mem hr
  exact ⟨content ++ Spool.encode pre, Spool.encode post, by simp [Spool.encode], whole_append hw (whole_encode pre)⟩

namespace Spool

variable {sp sp' : Spool} {maxBytes : Int} {rows : List AuditLogDO} {io : Io} {r : AuditLogDO} {name now : Nat} {c : Bytes}

/-- The row's text is a complete line of one of the files. -/
def Holds (sp : Spool) (r : AuditLogDO) : Prop := HoldsLine sp.active r ∨ ∃ f ∈ sp.replay, HoldsLine f.2 r

theorem append_replay : (sp.append maxBytes rows io).1.replay = sp.replay := by
  unfold append
  split_ifs
  · rfl
  · cases io <;> rfl

theorem holds_append (h : sp.Holds r) : (sp.append maxBytes rows io).1.Holds r := by
  rcases h with h | h
  · left
    unfold append
    split_ifs
    · exact h
    · cases io with
      | done => exact h.append _
      | error n => exact h.append _
  · exact .inr (by rw [append_replay]; exact h)

theorem holds_of_append (hok : (sp.append maxBytes rows io).2 = true) (hw : Whole sp.active) (hr : r ∈ rows) :
    (sp.append maxBytes rows io).1.Holds r := by
  unfold append at hok ⊢
  split_ifs at hok ⊢
  cases io with
  | done => exact .inl (holdsLine_encode hw hr)
  | error n => simp at hok

theorem holds_rotate (hrot : sp.rotate now = some sp') (h : sp.Holds r) : sp'.Holds r := by
  unfold rotate at hrot
  split_ifs at hrot with ha hlt
  · exact Option.some.inj hrot ▸ h
  · rw [← Option.some.inj hrot]
    rcases h with h | ⟨f, hf, h⟩
    · exact .inr ⟨_, List.mem_append_right _ (List.mem_singleton_self _), h⟩
    · exact .inr ⟨f, List.mem_append_left _ hf, h⟩

theorem content_of_mem {f : Nat × Bytes} (hf : f ∈ sp.replay) : sp.content f.1 = some f.2 := by
  have key : ∀ l : List (Nat × Bytes), (l.Pairwise fun a b => a.1 < b.1) → f ∈ l → (l.find? fun g => g.1 = f.1) = some f := by
    intro l
    induction l with
    | nil => exact fun _ h => nomatch h
    | cons g l ih =>
      intro hs hm
      obtain ⟨hg, hs⟩ := List.pairwise_cons.1 hs
      rcases List.mem_cons.1 hm with rfl | hm
      · simp
      · have hne : g.1 ≠ f.1 := Nat.ne_of_lt (hg f hm)
        rw [List.find?_cons_of_neg (by simpa using hne)]
        exact ih hs hm
  rw [content, key sp.replay sp.sorted hf]; rfl

theorem holds_remove (h : sp.Holds r) : (sp.remove name).Holds r ∨ ∃ c, sp.content name = some c ∧ HoldsLine c r := by
  rcases h with h | ⟨f, hf, h⟩
  · exact .inl (.inl h)
  · by_cases he : f.1 = name
    · exact .inr ⟨f.2, he ▸ content_of_mem hf, h⟩
    · exact .inl (.inr ⟨f, List.mem_filter.2 ⟨hf, by simpa using he⟩, h⟩)

end Spool

theorem marshal_eq_cons (r : AuditLogDO) : ∃ t, r.marshal = 123 :: t ++ [125] := ⟨_, rfl⟩

theorem isBlank_marshal (r : AuditLogDO) : isBlank r.marshal = false := by
  obtain ⟨t, ht⟩ := marshal_eq_cons r
  have hr : Utf8.runes (123 :: t ++ [125]) = (123, [123]) :: Utf8.runes (t ++ [125]) :=
    Utf8.runes_encodeRune_append (c := 123) (by decide) (t ++ [125])
  rw [isBlank, ht, beq_eq_false_iff_ne]
  exact Utf8.trimSpace_ne_nil (r := (123, [123])) (hr ▸ List.mem_cons_self ..) (by decide) (by simp)

theorem spoolRow_marshal {r : AuditLogDO} (h : Spoolable r) : ∃ q, spoolRow r.marshal = some q ∧ q.eventId = r.eventId := by
  have he : r.repair.eventId = r.eventId := h.text
  refine ⟨{ r.repair with id := 0, seq := 0, prevHash := [], hash := [] }, ?_, he⟩
  rw [spoolRow, AuditLogDO.unmarshal_marshal h.fits, Option.bind_some, if_neg (he ▸ h.eventId)]

theorem mem_readSpoolFile {content : Bytes} {r : AuditLogDO} (h : Spoolable r) (hl : HoldsLine content r)
    (hok : (readSpoolFile content).err = false) : ∃ q ∈ (readSpoolFile content).rows, q.eventId = r.eventId := by
  obtain ⟨q, hq, he⟩ := spoolRow_marshal h
  have hall : ∀ l ∈ Bytes.linesFrom [] content, l.length < maxSpoolLine := by
    simpa [readSpoolFile] using hok
  have hcr : Bytes.dropCR r.marshal = r.marshal := by
    obtain ⟨t, ht⟩ := marshal_eq_cons r
    rw [Bytes.dropCR, ht, if_neg]
    rw [List.getLast?_concat]
    decide
  refine ⟨q, List.mem_filterMap.2 ⟨r.marshal, ?_, hq⟩, he⟩
  refine List.mem_filter.2 ⟨?_, by rw [isBlank_marshal]; rfl⟩
  refine List.mem_map.2 ⟨r.marshal, ?_, hcr⟩
  rw [List.takeWhile_eq_self_iff.2 fun l hm => decide_eq_true (hall l hm)]
  exact hl.mem_linesFrom

end Audit
