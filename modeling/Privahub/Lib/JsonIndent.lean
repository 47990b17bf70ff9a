import Privahub.Lib.JsonWrite

/-!
# JSON over several lines

`json.MarshalIndent` with two blanks for each level. A reader finds the same tokens in it as in the text without white space (`tokens_indent`).
-/

namespace Json

def newline (n : Nat) : Bytes := 10 :: List.replicate (2 * n) 32

mutual

/-- The text of a value that starts at the level `n`. -/
def indent (n : Nat) : Json → Bytes
  | .arr (v :: vs) => 91 :: newline (n + 1) ++ List.intercalate (44 :: newline (n + 1)) (indentItems (n + 1) (v :: vs)) ++ newline n ++ [93]
  | .obj (m :: ms) => 123 :: newline (n + 1) ++ List.intercalate (44 :: newline (n + 1)) (indentMembers (n + 1) (m :: ms)) ++ newline n ++ [125]
  | v => render v

def indentItems (n : Nat) : List Json → List Bytes
  | [] => []
  | v :: vs => indent n v :: indentItems n vs

def indentMembers (n : Nat) : List (Bytes × Json) → List Bytes
  | [] => []
  | (k, v) :: ms => (34 :: k ++ [34, 58, 32] ++ indent n v) :: indentMembers n ms

end

variable {a rest w : Bytes} {ts : List Token} {d : UInt8} {t : Token}

def Blanks (w : Bytes) : Prop := ∀ b ∈ w, b = 32 ∨ b = 10

theorem blanks_newline (n : Nat) : Blanks (newline n) := by
  intro b hb
  rcases List.mem_cons.1 hb with rfl | hb
  · exact .inr rfl
  · exact .inl (List.eq_of_mem_replicate hb)

theorem idleStep_blank {b : UInt8} (hb : b = 32 ∨ b = 10) : idleStep b = some (.idle, []) ∧ ∀ st, numStep st b = none := by
  rcases hb with rfl | rfl
  · exact ⟨rfl, fun st => by cases st <;> rfl⟩
  · exact ⟨rfl, fun st => by cases st <;> rfl⟩

theorem tokens_blanks (hw : Blanks w) : tokens (w ++ rest) = tokens rest := by
  induction w with
  | nil => rfl
  | cons b w ih =>
    obtain ⟨hidle, -⟩ := idleStep_blank (hw b List.mem_cons_self)
    have hrun : lexRun .idle [b] = some (.idle, []) := by simp [lexRun, lexStep, hidle]
    have hstep : tokens ([b] ++ (w ++ rest)) = _ := tokens_append hrun
    rw [List.cons_append]
    refine hstep.trans ?_
    rw [ih fun x hx => hw x (List.mem_cons_of_mem _ hx)]
    exact Option.map_id'

theorem tokens_append_blank (ha : tokens a = some ts) (hd : d = 32 ∨ d = 10) : tokens (a ++ d :: rest) = (tokens rest).map fun us => ts ++ us := by
  obtain ⟨hidle, hnum⟩ := idleStep_blank hd
  obtain ⟨⟨st, us⟩, hr, hf⟩ := Option.bind_eq_some_iff.1 ha
  obtain ⟨l, hl, rfl⟩ := Option.map_eq_some_iff.1 hf
  simp only at hl
  have hstep : lexStep st d = some (.idle, l) := by
    cases st with
    | idle => rw [← Option.some.inj hl]; exact hidle
    | num s acc =>
      simp only [Lex.finish] at hl
      split_ifs at hl with hfin
      rw [← Option.some.inj hl]
      simp [lexStep, hnum, hfin, hidle]
    | _ => simp [Lex.finish] at hl
  have hrun : lexRun .idle (a ++ [d]) = some (.idle, us ++ l) := by simp [lexRun_append, hr, lexRun, hstep]
  rw [List.append_cons, tokens_append hrun]

theorem tokens_append_blanks_delim (ha : tokens a = some ts) (n : Nat) (hd : Delim d t) :
    tokens (a ++ newline n ++ d :: rest) = (tokens rest).map fun us => ts ++ t :: us := by
  rw [newline, List.append_assoc, List.cons_append, tokens_append_blank ha (.inr rfl), ← List.singleton_append (x := d),
    tokens_blanks fun b hb => .inl (List.eq_of_mem_replicate hb), List.singleton_append, tokens_cons hd, Option.map_map]
  rfl

theorem tokens_intercalate_lines {ps : List Bytes} {tss : List (List Token)} (n k : Nat) (h : List.Forall₂ (fun p ts => tokens p = some ts) ps tss)
    (hne : ps ≠ []) (hd : Delim d t) :
    tokens (List.intercalate (44 :: newline n) ps ++ newline k ++ d :: rest) =
      (tokens rest).map fun us => List.intercalate [.comma] tss ++ t :: us := by
  induction h with
  | nil => exact absurd rfl hne
  | @cons p ts ps tss hp hps ih =>
    cases hps with
    | nil => simpa using tokens_append_blanks_delim hp k hd
    | cons hq hqs =>
      have htail := ih (List.cons_ne_nil _ _)
      rw [List.intercalate_cons_cons, List.intercalate_cons_cons, List.append_assoc, List.append_assoc, List.append_assoc, List.cons_append,
        tokens_append_delim hp delim_comma, tokens_blanks (blanks_newline n), ← List.append_assoc, htail, Option.map_map]
      congr 1
      funext us
      simp

mutual

theorem tokens_indent (n : Nat) : ∀ v : Json, Wf v → tokens (indent n v) = some (toks v)
  | .null, h => tokens_render .null h
  | .bool b, h => tokens_render (.bool b) h
  | .num lit, h => tokens_render (.num lit) h
  | .str lit, h => tokens_render (.str lit) h
  | .arr [], h => tokens_render (.arr []) h
  | .obj [], h => tokens_render (.obj []) h
  | .arr (v :: vs), h => by
    have hitems := tokens_indentItems (n + 1) (v :: vs) h
    rw [indent, List.cons_append, List.cons_append, List.cons_append, tokens_cons delim_lbrack, List.append_assoc, List.append_assoc,
      tokens_blanks (blanks_newline _), ← List.append_assoc, tokens_intercalate_lines (n + 1) n hitems (List.cons_ne_nil _ _) delim_rbrack]
    simp [toks, tokens_nil]
  | .obj (m :: ms), h => by
    have hmembers := tokens_indentMembers (n + 1) (m :: ms) h
    have hne : indentMembers (n + 1) (m :: ms) ≠ [] := by obtain ⟨k, v⟩ := m; exact List.cons_ne_nil _ _
    rw [indent, List.cons_append, List.cons_append, List.cons_append, tokens_cons delim_lbrace, List.append_assoc, List.append_assoc,
      tokens_blanks (blanks_newline _), ← List.append_assoc, tokens_intercalate_lines (n + 1) n hmembers hne delim_rbrace]
    simp [toks, tokens_nil]

theorem tokens_indentItems (n : Nat) : ∀ vs : List Json, WfItems vs →
    List.Forall₂ (fun p ts => tokens p = some ts) (indentItems n vs) (toksItems vs)
  | [], _ => .nil
  | v :: vs, h => .cons (tokens_indent n v h.1) (tokens_indentItems n vs h.2)

theorem tokens_indentMembers (n : Nat) : ∀ ms : List (Bytes × Json), WfMembers ms →
    List.Forall₂ (fun p ts => tokens p = some ts) (indentMembers n ms) (toksMembers ms)
  | [], _ => .nil
  | (k, v) :: ms, h => by
    refine .cons ?_ (tokens_indentMembers n ms h.2.2)
    have hm : 34 :: k ++ [34, 58, 32] ++ indent n v = 34 :: k ++ 34 :: 58 :: ([32] ++ indent n v) := by simp
    rw [hm, tokens_str h.1, tokens_cons delim_colon, tokens_blanks fun b hb => .inl (List.mem_singleton.1 hb), tokens_indent n v h.2.1]
    rfl

end

theorem parse_indent {v : Json} (hwf : Wf v) (hd : depth v ≤ maxNestingDepth) : parse (indent 0 v) = some v := by
  have htok : tokens (indent 0 v) = tokens (render v) := (tokens_indent 0 v hwf).trans (tokens_render v hwf).symm
  rw [← parse_render hwf hd, parse, parse, htok]

end Json
