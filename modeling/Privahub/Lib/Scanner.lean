import Privahub.Lib.Bytes

/-!
# Reading a stream line by line

`bufio.Scanner` with `ScanLines` over a reader that hands out the stream in pieces of any size. However the stream is cut, the scanner returns the
lines that are shorter than its largest buffer, up to the first one that is not (`scan_eq`).
-/

structure Chunk where
  bytes : Bytes
  nonempty : bytes ≠ []

namespace Chunk

def stream (cs : List Chunk) : Bytes := cs.flatMap Chunk.bytes

/-- A read into `n` bytes: what does not fit comes with the next one. -/
def read (n : Nat) (c : Chunk) (cs : List Chunk) : Bytes × List Chunk :=
  if h : c.bytes.length ≤ n then (c.bytes, cs)
  else (c.bytes.take n, ⟨c.bytes.drop n, fun hc => h (List.drop_eq_nil_iff.1 hc)⟩ :: cs)

variable {n : Nat} {c : Chunk} {cs : List Chunk}

theorem read_stream (n : Nat) (c : Chunk) (cs : List Chunk) : (read n c cs).1 ++ stream (read n c cs).2 = stream (c :: cs) := by
  unfold read
  split_ifs
  · rfl
  · show c.bytes.take n ++ (c.bytes.drop n ++ stream cs) = c.bytes ++ stream cs
    rw [← List.append_assoc, List.take_append_drop]

theorem length_read_le (n : Nat) (c : Chunk) (cs : List Chunk) : (read n c cs).1.length ≤ n := by
  unfold read
  split_ifs with h
  · exact h
  · exact List.length_take_le n _

theorem read_lt (hn : 0 < n) (c : Chunk) (cs : List Chunk) : (stream (read n c cs).2).length < (stream (c :: cs)).length := by
  have hpos : 0 < (read n c cs).1.length := by
    have hc := List.length_pos_iff.2 c.nonempty
    unfold read
    split_ifs
    · exact hc
    · show 0 < (c.bytes.take n).length
      rw [List.length_take]
      omega
  rw [← read_stream n c cs, List.length_append]
  omega

end Chunk

/-- The scanner's buffer: `held` are the bytes from `start` on that no line has been made of. -/
structure Scanner (max : Nat) where
  chunks : List Chunk
  held : Bytes
  start : Nat
  size : Nat
  fits : start + held.length ≤ size
  within : size ≤ max

namespace Scanner

variable {max : Nat}

def cut : Bytes → Option (Bytes × Bytes)
  | [] => none
  | b :: t => if b = 10 then some ([], t) else (cut t).map fun p => (b :: p.1, p.2)

theorem cut_some {s line rest : Bytes} (h : cut s = some (line, rest)) : s = line ++ 10 :: rest ∧ 10 ∉ line := by
  induction s generalizing line with
  | nil => cases h
  | cons b s ih =>
    rw [cut] at h
    split_ifs at h with hb
    · cases h
      exact ⟨by rw [hb]; rfl, List.not_mem_nil⟩
    · obtain ⟨⟨l, r⟩, hlr, h⟩ := Option.map_eq_some_iff.1 h
      cases h
      obtain ⟨rfl, hno⟩ := ih hlr
      exact ⟨rfl, fun hm => (List.mem_cons.1 hm).elim (fun he => hb he.symm) hno⟩

theorem cut_none {s : Bytes} (h : cut s = none) : 10 ∉ s := by
  induction s with
  | nil => exact List.not_mem_nil
  | cons b s ih =>
    rw [cut] at h
    split_ifs at h with hb
    exact fun hm => (List.mem_cons.1 hm).elim (fun he => hb he.symm) (ih (Option.map_eq_none_iff.1 h))

def shift (s : Scanner max) : Scanner max :=
  if 0 < s.start ∧ (s.start + s.held.length = s.size ∨ s.size / 2 < s.start) then
    { s with start := 0, fits := by have := s.fits; omega }
  else s

def grow (s : Scanner max) : Option (Scanner max) :=
  if h : s.start + s.held.length = s.size then
    if h' : max ≤ s.size then none
    else some { s with
      start := 0
      size := min (if s.size = 0 then 4096 else 2 * s.size) max
      fits := by split_ifs <;> omega
      within := Nat.min_le_right .. }
  else some s

def makeRoom (s : Scanner max) : Option (Scanner max) := s.shift.grow

theorem shift_spec (s : Scanner max) : s.shift.chunks = s.chunks ∧ s.shift.held = s.held ∧ s.shift.size = s.size ∧
    (s.shift.start = 0 ∨ s.shift.start + s.held.length < s.size) := by
  unfold shift
  split_ifs with h
  · exact ⟨rfl, rfl, rfl, .inl rfl⟩
  · have := s.fits
    exact ⟨rfl, rfl, rfl, by omega⟩

theorem makeRoom_some {s s' : Scanner max} (h : s.makeRoom = some s') :
    s'.chunks = s.chunks ∧ s'.held = s.held ∧ s'.start + s.held.length < s'.size := by
  obtain ⟨h1, h2, h3, h4⟩ := s.shift_spec
  have hfits := s.shift.fits
  unfold makeRoom grow at h
  by_cases hfull : s.shift.start + s.shift.held.length = s.shift.size
  · rw [dif_pos hfull] at h
    by_cases hmax : max ≤ s.shift.size
    · rw [dif_pos hmax] at h
      cases h
    · rw [dif_neg hmax] at h
      cases h
      refine ⟨h1, h2, ?_⟩
      show 0 + _ < min (if s.shift.size = 0 then 4096 else 2 * s.shift.size) max
      rw [← h2]
      split_ifs <;> omega
  · rw [dif_neg hfull] at h
    cases h
    rw [h2] at hfull hfits
    exact ⟨h1, h2, by omega⟩

theorem makeRoom_none {s : Scanner max} (h : s.makeRoom = none) : s.held.length = max := by
  obtain ⟨h1, h2, h3, h4⟩ := s.shift_spec
  have hwithin := s.shift.within
  unfold makeRoom grow at h
  by_cases hfull : s.shift.start + s.shift.held.length = s.shift.size
  · rw [dif_pos hfull] at h
    by_cases hmax : max ≤ s.shift.size
    · rw [h2] at hfull
      omega
    · rw [dif_neg hmax] at h
      cases h
  · rw [dif_neg hfull] at h
    cases h

/-- The lines `Scan` returns, and whether it stops at a line that is too long. -/
def scan (s : Scanner max) : List Bytes × Bool :=
  match hcut : cut s.held with
  | some (line, rest) =>
    let r := scan { s with
      held := rest
      start := s.start + (line.length + 1)
      fits := by have := s.fits; rw [(cut_some hcut).1, List.length_append, List.length_cons] at this; omega }
    (Bytes.dropCR line :: r.1, r.2)
  | none =>
    match hroom : s.makeRoom with
    | none => ([], true)
    | some s' =>
      match hchunks : s'.chunks with
      | [] => if s'.held = [] then ([], false) else ([Bytes.dropCR s'.held], false)
      | c :: cs =>
        let p := Chunk.read (s'.size - (s'.start + s'.held.length)) c cs
        scan { s' with
          chunks := p.2
          held := s'.held ++ p.1
          fits := by
            have h1 := s'.fits
            have h2 : p.1.length ≤ s'.size - (s'.start + s'.held.length) := Chunk.length_read_le _ c cs
            rw [List.length_append]
            omega }
termination_by ((Chunk.stream s.chunks).length, s.held.length)
decreasing_by
  · rw [(cut_some hcut).1, List.length_append, List.length_cons]
    exact Prod.Lex.right _ (by show rest.length < _; omega)
  · obtain ⟨h1, h2, h3⟩ := makeRoom_some hroom
    rw [← h1, hchunks]
    rw [← h2] at h3
    exact Prod.Lex.left _ _ (Chunk.read_lt (by omega) c cs)

def text (s : Scanner max) : Bytes := s.held ++ Chunk.stream s.chunks

theorem linesFrom_head {held : Bytes} (h : 10 ∉ held) (acc t : Bytes) (hne : acc ++ held ≠ []) :
    ∃ l ls, Bytes.linesFrom acc (held ++ t) = l :: ls ∧ acc.length + held.length ≤ l.length := by
  induction held generalizing acc with
  | cons b held ih =>
    have hb : b ≠ 10 := fun hb => h (hb ▸ List.mem_cons_self)
    obtain ⟨l, ls, hl, hlen⟩ := ih (fun hm => h (List.mem_cons_of_mem _ hm)) (b :: acc) (by simp)
    rw [List.cons_append, Bytes.linesFrom, if_neg hb]
    refine ⟨l, ls, hl, ?_⟩
    rw [List.length_cons] at hlen ⊢
    omega
  | nil =>
    rw [List.append_nil] at hne
    rw [List.nil_append]
    induction t generalizing acc with
    | nil => exact ⟨acc.reverse, [], by rw [Bytes.linesFrom, if_neg hne], by simp⟩
    | cons b t ih =>
      rw [Bytes.linesFrom]
      by_cases hb : b = 10
      · rw [if_pos hb]
        exact ⟨acc.reverse, _, rfl, by simp⟩
      · rw [if_neg hb]
        obtain ⟨l, ls, hl, hlen⟩ := ih (b :: acc) (List.cons_ne_nil _ _)
        exact ⟨l, ls, hl, by rw [List.length_cons] at hlen; omega⟩

theorem scan_eq (hmax : 0 < max) (s : Scanner max) :
    s.scan = (Bytes.scanLines max s.text, (Bytes.linesFrom [] s.text).any fun l => max ≤ l.length) := by
  fun_induction scan s with
  | case1 s line rest hcut r ih =>
    obtain ⟨hheld, hno⟩ := cut_some hcut
    have hlen : line.length < max := by
      have h1 := s.fits
      have h2 := s.within
      rw [hheld, List.length_append, List.length_cons] at h1
      omega
    have htext : s.text = line ++ 10 :: (rest ++ Chunk.stream s.chunks) := by
      rw [text, hheld, List.append_assoc, List.cons_append]
    have hr : r = (Bytes.scanLines max (rest ++ Chunk.stream s.chunks), (Bytes.linesFrom [] (rest ++ Chunk.stream s.chunks)).any fun l => max ≤ l.length) := ih
    rw [hr, Bytes.scanLines, Bytes.scanLines, htext, Bytes.linesFrom_break hno, List.reverse_nil, List.nil_append, List.takeWhile_cons, if_pos (decide_eq_true hlen),
      List.map_cons, List.any_cons, decide_eq_false (not_le.2 hlen), Bool.false_or]
  | case2 s hcut hroom =>
    have hlen := makeRoom_none hroom
    have hne : ([] : Bytes) ++ s.held ≠ [] := by
      intro h
      rw [List.nil_append] at h
      rw [h] at hlen
      simp at hlen
      omega
    obtain ⟨l, ls, hl, hle⟩ := linesFrom_head (cut_none hcut) [] (Chunk.stream s.chunks) hne
    rw [List.length_nil] at hle
    rw [Bytes.scanLines, text, hl, List.takeWhile_cons, if_neg (by simp; omega), List.any_cons, decide_eq_true (by omega), Bool.true_or]
    rfl
  | case3 s hcut s' hroom hchunks hheld =>
    obtain ⟨h1, h2, -⟩ := makeRoom_some hroom
    have htext : s.text = [] := by
      rw [text, ← h1, ← h2, hheld, hchunks]
      rfl
    rw [htext]
    rfl
  | case4 s hcut s' hroom hchunks hheld =>
    obtain ⟨h1, h2, h3⟩ := makeRoom_some hroom
    have hwithin := s'.within
    have htext : s.text = s'.held := by
      rw [text, ← h1, ← h2, hchunks]
      exact List.append_nil _
    have hno : 10 ∉ s'.held := by
      rw [h2]
      exact cut_none hcut
    have hone : Bytes.linesFrom [] s'.held = [s'.held] := by
      have key : ∀ (l acc : Bytes), 10 ∉ l → acc ++ l ≠ [] → Bytes.linesFrom acc l = [acc.reverse ++ l] := by
        intro l
        induction l with
        | nil =>
          intro acc _ hne
          rw [List.append_nil] at hne
          rw [Bytes.linesFrom, if_neg hne, List.append_nil]
        | cons b l ih =>
          intro acc hno hne
          have hb : b ≠ 10 := fun hb => hno (hb ▸ List.mem_cons_self)
          rw [Bytes.linesFrom, if_neg hb, ih (b :: acc) (fun hm => hno (List.mem_cons_of_mem _ hm)) (List.cons_ne_nil _ _)]
          simp
      exact key s'.held [] hno hheld
    have hlen : s'.held.length < max := by
      rw [← h2] at h3
      omega
    rw [Bytes.scanLines, htext, hone, List.takeWhile_cons, if_pos (decide_eq_true hlen), List.any_cons, decide_eq_false (not_le.2 hlen)]
    rfl
  | case5 s hcut s' hroom c cs hchunks p ih =>
    obtain ⟨h1, h2, -⟩ := makeRoom_some hroom
    rw [ih]
    have htext : s'.held ++ p.1 ++ Chunk.stream p.2 = s.text := by
      have hread : p.1 ++ Chunk.stream p.2 = Chunk.stream (c :: cs) := Chunk.read_stream _ c cs
      rw [List.append_assoc, hread, text, ← h1, ← h2, hchunks]
    rw [show text _ = s'.held ++ p.1 ++ Chunk.stream p.2 from rfl, htext]

end Scanner
