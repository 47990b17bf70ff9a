import Privahub.Audit.Spool
import Privahub.Lib.Run

/-!
# Rows the spool has acknowledged

Runs of `append`, `rotate` and `remove`, with the rows of the appends that reported success. Such a row is read back from its file if its append
found a file that ends with a line break and has no line too long for the reader (`returned_run`): whatever is written behind a line leaves it
readable (`Readable.append`). A failed append may leave the beginning of a line, which the next one continues (`torn_line_lost`).
-/

namespace Audit

def Readable (content : Bytes) (r : AuditLogDO) : Prop :=
  ∃ a b, content = a ++ (r.marshal ++ 10 :: b) ∧ Whole a ∧ ∀ l ∈ Bytes.linesFrom [] a, l.length < maxSpoolLine

/-- A file behind whose end rows are lines of their own, and are reached by the reader. -/
structure Open (content : Bytes) : Prop where
  whole : Whole content
  short : ∀ l ∈ Bytes.linesFrom [] content, l.length < maxSpoolLine

variable {content : Bytes} {r : AuditLogDO} {rows : List AuditLogDO} {sp sp' : Spool} {maxBytes : Int} {name now : Nat}

theorem Readable.append (h : Readable content r) (d : Bytes) : Readable (content ++ d) r := by
  obtain ⟨a, b, rfl, ha, hshort⟩ := h
  exact ⟨a, b ++ d, by simp, ha, hshort⟩

theorem linesFrom_encode (rows : List AuditLogDO) : Bytes.linesFrom [] (Spool.encode rows) = rows.map AuditLogDO.marshal := by
  have hlines : ∀ l ∈ rows.map AuditLogDO.marshal, 10 ∉ l := by
    intro l hl
    obtain ⟨r, -, rfl⟩ := List.mem_map.1 hl
    exact newline_not_mem_marshal r
  have hread := Bytes.linesFrom_lines hlines []
  rw [List.append_nil, List.flatMap_map] at hread
  exact hread.trans (List.append_nil _)

theorem Open.readable (h : Open content) (hrows : ∀ r ∈ rows, r.marshal.length < maxSpoolLine) (hr : r ∈ rows) :
    Readable (content ++ Spool.encode rows) r := by
  obtain ⟨pre, post, rfl⟩ := List.append_of_mem hr
  refine ⟨content ++ Spool.encode pre, Spool.encode post, by simp [Spool.encode], whole_append h.whole (whole_encode pre), fun l hl => ?_⟩
  rw [linesFrom_append h.whole, linesFrom_encode] at hl
  rcases List.mem_append.1 hl with hl | hl
  · exact h.short l hl
  · obtain ⟨q, hq, rfl⟩ := List.mem_map.1 hl
    exact hrows q (List.mem_append_left _ hq)

theorem dropCR_marshal (r : AuditLogDO) : Bytes.dropCR r.marshal = r.marshal := by
  obtain ⟨t, ht⟩ := marshal_eq_cons r
  rw [Bytes.dropCR, ht, if_neg]
  rw [List.getLast?_concat]
  decide

theorem Readable.mem_rows (h : Readable content r) (hr : Spoolable r) :
    { r.repair with id := 0, seq := 0, prevHash := [], hash := [] } ∈ (readSpoolFile content).rows := by
  obtain ⟨a, b, rfl, ha, hshort⟩ := h
  have hrow : spoolRow r.marshal = some { r.repair with id := 0, seq := 0, prevHash := [], hash := [] } := by
    have he : r.repair.eventId = r.eventId := hr.text
    rw [spoolRow, AuditLogDO.unmarshal_marshal hr.fits, Option.bind_some, if_neg (he ▸ hr.eventId)]
  refine List.mem_filterMap.2 ⟨r.marshal, List.mem_filter.2 ⟨?_, by rw [isBlank_marshal]; rfl⟩, hrow⟩
  have hmarshal : decide (r.marshal.length < maxSpoolLine) = true := decide_eq_true hr.short
  refine List.mem_map.2 ⟨r.marshal, ?_, dropCR_marshal r⟩
  rw [linesFrom_append ha, Bytes.linesFrom_break (newline_not_mem_marshal r), List.takeWhile_append_of_pos fun l hl => decide_eq_true (hshort l hl)]
  refine List.mem_append_right _ ?_
  show r.marshal ∈ List.takeWhile _ (r.marshal :: _)
  rw [List.takeWhile_cons, if_pos hmarshal]
  exact List.mem_cons_self

/-- The rows of the appends that reported success, each with the file it is in: the active one or a rotated one. -/
structure SpoolRun where
  sp : Spool
  acked : List (Option Nat × AuditLogDO)
deriving DecidableEq

inductive SpoolCall where
  | append (recs : List (Uuid × Event)) (io : Io)
  | rotate (now : Nat)
  | remove (name : Nat)

def rowsOf (recs : List (Uuid × Event)) : List AuditLogDO := recs.map fun p => rowFromEvent p.1.text p.2

namespace SpoolRun

def fresh : SpoolRun := ⟨.empty, []⟩

def moved (active : Bytes) (now : Nat) (f : Option Nat) : Option Nat := if f = none ∧ active ≠ [] then some now else f

def step (maxBytes : Int) (s : SpoolRun) : SpoolCall → Option SpoolRun
  | .append recs io =>
    let (sp, ok) := s.sp.append maxBytes (rowsOf recs) io
    some ⟨sp, if ok then s.acked ++ (rowsOf recs).map fun r => (none, r) else s.acked⟩
  | .rotate now => (s.sp.rotate now).map fun sp => ⟨sp, s.acked.map fun p => (moved s.sp.active now p.1, p.2)⟩
  | .remove name => some ⟨s.sp.remove name, s.acked.filter fun p => p.1 ≠ some name⟩

def file (s : SpoolRun) : Option Nat → Option Bytes
  | none => some s.sp.active
  | some name => s.sp.content name

/-- Every row of an append that reported success is read back from its file. -/
def Returned (s : SpoolRun) : Prop :=
  ∀ p ∈ s.acked, ∃ content, s.file p.1 = some content ∧ p.2.repair ∈ (readSpoolFile content).rows

/-- An append that writes its rows finds an open file, that is, with no part of a line at its end and no line too long. -/
def FindsOpen (maxBytes : Int) (s : SpoolRun) : SpoolCall → Prop
  | .append recs .done =>
    recs ≠ [] → ¬(0 < maxBytes ∧ maxBytes < s.sp.size + (Spool.encode (rowsOf recs)).length) → Open s.sp.active
  | _ => True

variable {s s' : SpoolRun} {c : SpoolCall} {recs : List (Uuid × Event)} {io : Io}

structure Inv (s : SpoolRun) : Prop where
  recorded : ∀ p ∈ s.acked, ∃ id e, p.2 = rowFromEvent (Uuid.text id) e
  readable : ∀ p ∈ s.acked, ∃ content, s.file p.1 = some content ∧ Readable content p.2

theorem Inv.returned (h : Inv s) : s.Returned := by
  intro p hp
  obtain ⟨id, e, he⟩ := h.recorded p hp
  obtain ⟨content, hfile, hread⟩ := h.readable p hp
  refine ⟨content, hfile, ?_⟩
  rw [he] at hread ⊢
  exact hread.mem_rows (spoolable_rowFromEvent id e)

theorem append_active (sp : Spool) (maxBytes : Int) (rows : List AuditLogDO) (io : Io) :
    ∃ d, (sp.append maxBytes rows io).1.active = sp.active ++ d := by
  unfold Spool.append
  split_ifs
  · exact ⟨[], (List.append_nil _).symm⟩
  · cases io with
    | done => exact ⟨_, rfl⟩
    | error n => exact ⟨_, rfl⟩

theorem append_inv (hi : Inv s) (hopen : FindsOpen maxBytes s (.append recs io)) :
    Inv ⟨(s.sp.append maxBytes (rowsOf recs) io).1,
      if (s.sp.append maxBytes (rowsOf recs) io).2 then s.acked ++ (rowsOf recs).map fun r => (none, r) else s.acked⟩ := by
  have hold : ∀ p ∈ s.acked, ∃ content, file ⟨(s.sp.append maxBytes (rowsOf recs) io).1, []⟩ p.1 = some content ∧ Readable content p.2 := by
    rintro ⟨f, r⟩ hp
    obtain ⟨content, hfile, hread⟩ := hi.readable _ hp
    cases f with
    | none =>
      obtain ⟨d, hd⟩ := append_active s.sp maxBytes (rowsOf recs) io
      obtain rfl : s.sp.active = content := Option.some.inj hfile
      exact ⟨_, congrArg some hd, hread.append d⟩
    | some name =>
      refine ⟨content, ?_, hread⟩
      show Spool.content _ name = _
      rw [Spool.content, Spool.append_replay]
      exact hfile
  by_cases hok : (s.sp.append maxBytes (rowsOf recs) io).2 = true
  · rw [if_pos hok]
    constructor
    · intro p hp
      rcases List.mem_append.1 hp with hp | hp
      · exact hi.recorded p hp
      · obtain ⟨r, hr, rfl⟩ := List.mem_map.1 hp
        obtain ⟨⟨id, e⟩, -, rfl⟩ := List.mem_map.1 hr
        exact ⟨id, e, rfl⟩
    · intro p hp
      rcases List.mem_append.1 hp with hp | hp
      · exact hold p hp
      · obtain ⟨r, hr, rfl⟩ := List.mem_map.1 hp
        refine ⟨_, rfl, ?_⟩
        have hne : recs ≠ [] := by
          rintro rfl
          cases hr
        unfold Spool.append at hok ⊢
        split_ifs at hok ⊢ with hfull
        cases io with
        | error n => cases hok
        | done =>
          refine (hopen hne hfull).readable (fun q hq => ?_) hr
          obtain ⟨⟨id, e⟩, -, rfl⟩ := List.mem_map.1 hq
          exact (spoolable_rowFromEvent id e).short
  · rw [if_neg hok]
    exact ⟨hi.recorded, hold⟩

theorem rotate_inv (hi : Inv s) (h : s.sp.rotate now = some sp') : Inv ⟨sp', s.acked.map fun p => (moved s.sp.active now p.1, p.2)⟩ := by
  refine ⟨fun p hp => ?_, fun p hp => ?_⟩
  · obtain ⟨q, hq, rfl⟩ := List.mem_map.1 hp
    exact hi.recorded q hq
  obtain ⟨⟨f, r⟩, hq, rfl⟩ := List.mem_map.1 hp
  obtain ⟨content, hfile, hread⟩ := hi.readable _ hq
  refine ⟨content, ?_, hread⟩
  unfold Spool.rotate at h
  split_ifs at h with hnil hlt
  · cases h
    rw [moved, if_neg fun hc => hc.2 hnil]
    exact hfile
  · cases h
    cases f with
    | none =>
      rw [moved, if_pos ⟨rfl, hnil⟩]
      obtain rfl : s.sp.active = content := Option.some.inj hfile
      have hread : ∀ sp : Spool, (now, s.sp.active) ∈ sp.replay → sp.content now = some s.sp.active := fun _ hmem => Spool.content_of_mem hmem
      exact hread _ (by simp)
    | some name =>
      rw [moved, if_neg fun hc => by cases hc.1]
      obtain ⟨g, hg, hname⟩ : ∃ g, s.sp.replay.find? (fun g => g.1 = name) = some g ∧ g.2 = content := by
        simpa [file, Spool.content] using hfile
      show Spool.content _ name = _
      rw [Spool.content, List.find?_append, hg]
      exact congrArg some hname

theorem remove_inv (hi : Inv s) (name : Nat) : Inv ⟨s.sp.remove name, s.acked.filter fun p => p.1 ≠ some name⟩ := by
  refine ⟨fun p hp => hi.recorded p (List.mem_filter.1 hp).1, ?_⟩
  rintro ⟨f, r⟩ hp
  obtain ⟨hp, hne⟩ := List.mem_filter.1 hp
  obtain ⟨content, hfile, hread⟩ := hi.readable _ hp
  refine ⟨content, ?_, hread⟩
  cases f with
  | none => exact hfile
  | some other =>
    have hne : other ≠ name := by
      rintro rfl
      simp at hne
    obtain ⟨g, hg, hname⟩ : ∃ g, s.sp.replay.find? (fun g => g.1 = other) = some g ∧ g.2 = content := by
      simpa [file, Spool.content] using hfile
    have hmem := List.mem_of_find?_eq_some hg
    have hother : g.1 = other := by simpa using List.find?_some hg
    show Spool.content _ other = _
    rw [← hother, ← hname]
    exact Spool.content_of_mem (List.mem_filter.2 ⟨hmem, by simpa [hother] using hne⟩)

theorem step_inv (hi : Inv s) (hopen : FindsOpen maxBytes s c) (h : s.step maxBytes c = some s') : Inv s' := by
  cases c with
  | append recs io =>
    cases h
    exact append_inv hi hopen
  | rotate now =>
    obtain ⟨sp, hsp, rfl⟩ := Option.map_eq_some_iff.1 h
    exact rotate_inv hi hsp
  | remove name =>
    cases h
    exact remove_inv hi name

theorem inv_fresh : Inv fresh where
  recorded _ hp := by cases hp
  readable _ hp := by cases hp

theorem returned_run {as : List SpoolCall} (hopen : Lts.RunAll (step maxBytes) (FindsOpen maxBytes) fresh as)
    (hr : Lts.run (step maxBytes) fresh as = some s) : s.Returned :=
  (Lts.run_invariant (fun _ _ _ hi ho hs => step_inv hi ho hs) inv_fresh hopen hr).returned

def oneId : Uuid := ⟨List.replicate 36 97, length_letters, letters_uuid⟩

def oneEvent : Event := ⟨0, [], [], [], [], [], [], [], [], [], [], []⟩

def tornRun : List SpoolCall := [.append [(oneId, oneEvent)] (.error 1), .append [(oneId, oneEvent)] .done]

theorem torn_line_lost : ∃ s, Lts.run (step 0) fresh tornRun = some s ∧ ¬s.Returned := by
  refine ⟨_, rfl, fun h => ?_⟩
  obtain ⟨content, hfile, hrow⟩ := h (none, rowFromEvent oneId.text oneEvent) (by decide +kernel)
  cases hfile
  revert hrow
  decide +kernel

def wholeRun : List SpoolCall := [.append [(oneId, oneEvent)] .done, .append [(oneId, oneEvent)] (.error 1), .rotate 1]

theorem returned_wholeRun : ∃ s, Lts.run (step 0) fresh wholeRun = some s ∧ s.acked ≠ [] ∧ s.Returned := by
  have hopen : Lts.RunAll (step 0) (FindsOpen 0) fresh wholeRun := by
    refine ⟨fun _ _ => ⟨rfl, fun l hl => ?_⟩, fun s hs => ⟨trivial, fun s' hs' => ⟨trivial, fun _ _ => trivial⟩⟩⟩
    cases hl
  exact ⟨_, rfl, by decide +kernel, returned_run hopen rfl⟩

end SpoolRun

end Audit
