import Privahub.Lib.JsonTree
import Mathlib.Data.List.Flatten

/-!
# Raw JSON in what is written

`json.Marshal` takes the space out of a `json.RawMessage` and escapes `<`, `>`, `&` and the line separators in its literals
(`escapeHTML`, and `html` of a tree). The literals still spell what they spelled, and what is written once is written
the same again.
-/

namespace Json

def htmlStep (b : UInt8) (t : Bytes) : Bytes × Nat :=
  if b = 60 ∨ b = 62 ∨ b = 38 then (escapeU b.toNat, 0)
  else if b = 0xE2 then
    match t with
    | 0x80 :: c :: _ => if c = 0xA8 then (escapeU 0x2028, 2) else if c = 0xA9 then (escapeU 0x2029, 2) else ([b], 0)
    | _ => ([b], 0)
  else ([b], 0)

def escapeHTMLFrom : Nat → Bytes → Bytes
  | _, [] => []
  | k + 1, _ :: t => escapeHTMLFrom k t
  | 0, b :: t => (htmlStep b t).1 ++ escapeHTMLFrom (htmlStep b t).2 t

def escapeHTML (lit : Bytes) : Bytes := escapeHTMLFrom 0 lit

mutual

def html : Json → Json
  | .str lit => .str (escapeHTML lit)
  | .arr items => .arr (htmlItems items)
  | .obj ms => .obj (htmlMembers ms)
  | v => v

def htmlItems : List Json → List Json
  | [] => []
  | v :: vs => html v :: htmlItems vs

def htmlMembers : List (Bytes × Json) → List (Bytes × Json)
  | [] => []
  | (k, v) :: ms => (escapeHTML k, html v) :: htmlMembers ms

end

theorem escapeHTML_cases (b : UInt8) (t : Bytes) :
    (b = 60 ∨ b = 62 ∨ b = 38) ∧ escapeHTML (b :: t) = escapeU b.toNat ++ escapeHTML t ∨
    (∃ c ∈ [0x2028, 0x2029], ∃ r, b :: t = Utf8.encodeRune c ++ r ∧ escapeHTML (b :: t) = escapeU c ++ escapeHTML r) ∨
    escapeHTML (b :: t) = b :: escapeHTML t := by
  have hstep : escapeHTML (b :: t) = (htmlStep b t).1 ++ escapeHTMLFrom (htmlStep b t).2 t := rfl
  unfold htmlStep at hstep
  split_ifs at hstep with hspecial hlead
  · exact .inl ⟨hspecial, hstep⟩
  · split at hstep
    case _ c r =>
      split_ifs at hstep with h8 h9
      · exact .inr (.inl ⟨0x2028, by simp, r, by rw [hlead, h8]; rfl, hstep⟩)
      · exact .inr (.inl ⟨0x2029, by simp, r, by rw [hlead, h9]; rfl, hstep⟩)
      · exact .inr (.inr hstep)
    case _ => exact .inr (.inr hstep)
  · exact .inr (.inr hstep)

theorem isScalar_of_separator {c : Nat} (h : c ∈ [0x2028, 0x2029]) : Utf8.IsScalar c ∧ 0x80 ≤ c ∧ c < 0x10000 := by
  revert c
  decide

variable {b : UInt8} {c : Nat} {t u lit s : Bytes}

def Copied (b : UInt8) : Prop := b ≠ 60 ∧ b ≠ 62 ∧ b ≠ 38 ∧ b ≠ 0xE2

instance : DecidablePred Copied := fun _ => inferInstanceAs (Decidable (_ ∧ _))

theorem escapeHTML_copied (h : Copied b) (t : Bytes) : escapeHTML (b :: t) = b :: escapeHTML t := by
  obtain ⟨h1, h2, h3, h4⟩ := h
  have hstep : htmlStep b t = ([b], 0) := by simp [htmlStep, h1, h2, h3, h4]
  show (htmlStep b t).1 ++ escapeHTMLFrom (htmlStep b t).2 t = b :: escapeHTML t
  rw [hstep]
  rfl

theorem escapeHTML_special (h : b = 60 ∨ b = 62 ∨ b = 38) (t : Bytes) : escapeHTML (b :: t) = escapeU b.toNat ++ escapeHTML t := by
  have hstep : htmlStep b t = (escapeU b.toNat, 0) := if_pos h
  show (htmlStep b t).1 ++ escapeHTMLFrom (htmlStep b t).2 t = escapeU b.toNat ++ escapeHTML t
  rw [hstep]
  rfl

theorem escapeHTML_append (h : ∀ b ∈ u, Copied b) (t : Bytes) : escapeHTML (u ++ t) = u ++ escapeHTML t := by
  induction u with
  | nil => rfl
  | cons b u ih =>
    rw [List.cons_append, escapeHTML_copied (h b List.mem_cons_self), ih fun c hc => h c (List.mem_cons_of_mem _ hc)]
    rfl

theorem copied_bytes : ∀ n < 256, isHex (UInt8.ofNat n) = true ∨ isEscape (UInt8.ofNat n) = true ∨ n = 117 ∨ 0x80 ≤ n ∧ n < 0xC0 →
    Copied (UInt8.ofNat n) := by decide +kernel

theorem copied_of_hex (h : isHex b = true) : Copied b := by
  have hb := copied_bytes b.toNat b.toNat_lt
  rw [UInt8.ofNat_toNat] at hb
  exact hb (.inl h)

theorem copied_of_escape (h : isEscape b = true) : Copied b := by
  have hb := copied_bytes b.toNat b.toNat_lt
  rw [UInt8.ofNat_toNat] at hb
  exact hb (.inr (.inl h))

theorem copied_of_continuation (h : 0x80 ≤ b.toNat ∧ b.toNat < 0xC0) : Copied b := by
  have hb := copied_bytes b.toNat b.toNat_lt
  rw [UInt8.ofNat_toNat] at hb
  exact hb (.inr (.inr (.inr h)))

theorem escapeHTML_hex {a b c d : UInt8} (h : Hex4 a b c d) (t : Bytes) :
    escapeHTML (92 :: 117 :: a :: b :: c :: d :: t) = 92 :: 117 :: a :: b :: c :: d :: escapeHTML t := by
  refine escapeHTML_append (u := [92, 117, a, b, c, d]) (fun x hx => ?_) t
  simp only [List.mem_cons, List.not_mem_nil, or_false] at hx
  rcases hx with rfl | rfl | rfl | rfl | rfl | rfl
  · decide
  · decide
  · exact copied_of_hex h.fst
  · exact copied_of_hex h.snd
  · exact copied_of_hex h.trd
  · exact copied_of_hex h.fth

theorem hex4_escapeU (c : Nat) : Hex4 (hexLower (c / 4096 % 16)) (hexLower (c / 256 % 16)) (hexLower (c / 16 % 16)) (hexLower (c % 16)) := by
  have hx : ∀ n < 16, isHex (hexLower n) = true := by decide
  exact ⟨hx _ (by omega), hx _ (by omega), hx _ (by omega), hx _ (by omega)⟩

theorem escapeHTML_escapeU (c : Nat) (t : Bytes) : escapeHTML (escapeU c ++ t) = escapeU c ++ escapeHTML t := escapeHTML_hex (hex4_escapeU c) t

theorem Spells.escapeU (hc : Utf8.IsScalar c) (hlt : c < 0x10000) (h : Spells t s) : Spells (Json.escapeU c ++ t) (Utf8.encodeRune c ++ s) := by
  have hcode := Spells.code (hex4_escapeU c) (by rw [hex4_eq hlt]; unfold Utf8.IsScalar at hc; omega) h
  rwa [hex4_eq hlt] at hcode

theorem Spells.strLit (h : Spells lit s) : StrLit lit := by
  have hcode {a b c d : UInt8} {t : Bytes} (hx : Hex4 a b c d) (ht : StrLit t) : StrLit (92 :: 117 :: a :: b :: c :: d :: t) := by
    simp only [StrLit, strRun, strStep, hx.fst, hx.snd, hx.trd, hx.fth]
    exact ht
  have hhigh {b : UInt8} (hb : 0x80 ≤ b.toNat) : StrLit [b] := .of_high fun x hx => by rwa [List.mem_singleton.1 hx]
  induction h with
  | nil => rfl
  | plain _ hge hquote hslash _ ih =>
    rw [StrLit, strRun, if_neg (fun h => hquote h.2), strStep, if_neg hslash, if_neg (by simpa using hge)]
    exact ih
  | @esc c t s hc _ ih =>
    have h117 : c ≠ 117 := by rintro rfl; cases hc
    simp only [StrLit, strRun, strStep, hc, h117]
    exact ih
  | code hx _ _ ih => exact hcode hx ih
  | pair hx hx' _ _ _ ih => exact hcode hx (hcode hx' ih)
  | lone hx _ _ _ ih => exact hcode hx ih
  | rune hc hge _ ih => exact StrLit.append (.of_high fun b hb => high_of_mem_encodeRune hge hc hb) ih
  | bad _ hge _ ih => exact (hhigh hge).append ih

theorem continuation_of_mem_tail (hc : Utf8.IsScalar c) {b : UInt8} (h : b ∈ (Utf8.encodeRune c).tail) : 0x80 ≤ b.toNat ∧ b.toNat < 0xC0 := by
  have hbyte {n : Nat} (hb : b = UInt8.ofNat (0x80 + n % 64)) : 0x80 ≤ b.toNat ∧ b.toNat < 0xC0 := by
    rw [hb, Utf8.toNat_ofNat (by omega)]
    omega
  unfold Utf8.encodeRune at h
  split_ifs at h <;> simp only [List.tail_cons, List.mem_cons, List.not_mem_nil, or_false] at h
  · exact hbyte h
  · rcases h with h | h
    · exact hbyte h
    · exact hbyte h
  · rcases h with h | h | h
    · exact hbyte h
    · exact hbyte h
    · exact hbyte h

theorem escapeHTML_rune (hc : Utf8.IsScalar c) (hge : 0x80 ≤ c) (t : Bytes) :
    escapeHTML (Utf8.encodeRune c ++ t) = (if c = 0x2028 ∨ c = 0x2029 then escapeU c else Utf8.encodeRune c) ++ escapeHTML t := by
  split_ifs with hsep
  · rcases hsep with rfl | rfl
    · rfl
    · rfl
  obtain ⟨b, u, hb⟩ := List.exists_cons_of_ne_nil (Utf8.encodeRune_ne_nil c)
  have hhigh : 0x80 ≤ b.toNat := high_of_mem_encodeRune hge hc (hb ▸ List.mem_cons_self)
  have hu : ∀ x ∈ u, Copied x := fun x hx => copied_of_continuation (continuation_of_mem_tail hc (by rw [hb]; exact hx))
  rw [hb, List.cons_append, List.cons_append]
  rcases escapeHTML_cases b (u ++ t) with ⟨hspecial, _⟩ | ⟨c', hc', r, hr, _⟩ | hcopy
  · rcases hspecial with rfl | rfl | rfl <;> simp at hhigh
  · obtain ⟨hs', -, -⟩ := isScalar_of_separator hc'
    have hd := Utf8.decodeRune_encodeRune hc t
    rw [hb, List.cons_append, hr, Utf8.decodeRune_encodeRune hs' r] at hd
    obtain rfl := (Prod.ext_iff.1 hd).1
    exact absurd (by simpa using hc') hsep
  · rw [hcopy, escapeHTML_append hu]

theorem encodeRune_length (h : 0x80 ≤ c) : 2 ≤ (Utf8.encodeRune c).length := by
  unfold Utf8.encodeRune
  split_ifs
  · omega
  · simp
  · simp
  · simp
  · simp

theorem append_of_escapeHTML {r : Bytes} (hu : ∀ b ∈ u, b ≠ 92) (h : escapeHTML t = u ++ r) : ∃ w, t = u ++ w := by
  induction u generalizing t with
  | nil => exact ⟨t, rfl⟩
  | cons b u ih =>
    have hb : b ≠ 92 := hu b List.mem_cons_self
    cases t with
    | nil => cases h
    | cons a t =>
      rcases escapeHTML_cases a t with ⟨_, he⟩ | ⟨_, _, _, _, he⟩ | he
      · rw [he] at h
        exact absurd (List.cons.inj h).1.symm hb
      · rw [he] at h
        exact absurd (List.cons.inj h).1.symm hb
      · rw [he] at h
        obtain ⟨rfl, ht⟩ := List.cons.inj h
        obtain ⟨w, rfl⟩ := ih (fun x hx => hu x (List.mem_cons_of_mem _ hx)) ht
        exact ⟨w, rfl⟩

theorem escapeHTML_bad (hd : Utf8.decodeRune (b :: t) = (Utf8.runeError, 1)) (hge : 0x80 ≤ b.toNat) :
    escapeHTML (b :: t) = b :: escapeHTML t ∧ Utf8.decodeRune (b :: escapeHTML t) = (Utf8.runeError, 1) := by
  have hnone {c : Nat} {w : Bytes} (hc : Utf8.IsScalar c) (hlt : 0x80 ≤ c) : b :: t ≠ Utf8.encodeRune c ++ w := by
    intro he
    rw [he, Utf8.decodeRune_encodeRune hc] at hd
    have := encodeRune_length hlt
    have := (Prod.ext_iff.1 hd).2
    omega
  refine ⟨?_, ?_⟩
  · rcases escapeHTML_cases b t with ⟨hspecial, _⟩ | ⟨c, hc, r, hr, _⟩ | hcopy
    · rcases hspecial with rfl | rfl | rfl <;> simp at hge
    · obtain ⟨hs, hlt, -⟩ := isScalar_of_separator hc
      exact absurd hr (hnone hs hlt)
    · exact hcopy
  · rcases Utf8.decodeRune_cases b (escapeHTML t) with ⟨hbad, -⟩ | ⟨c, r, hc, hr⟩
    · exact hbad
    -- the bytes of a rune would stand in the literal too
    obtain ⟨b', u, hb'⟩ := List.exists_cons_of_ne_nil (Utf8.encodeRune_ne_nil c)
    have hlt : 0x80 ≤ c := by
      by_contra hlt
      rw [Utf8.encodeRune, if_pos (by omega)] at hr
      rw [(List.cons.inj hr).1, Utf8.toNat_ofNat (by omega)] at hge
      omega
    rw [hb', List.cons_append] at hr
    obtain ⟨rfl, ht⟩ := List.cons.inj hr
    have hu : ∀ x ∈ u, x ≠ 92 := by
      rintro x hx rfl
      have := continuation_of_mem_tail hc (b := 92) (by rw [hb']; exact hx)
      simp at this
    obtain ⟨w, rfl⟩ := append_of_escapeHTML hu ht
    exact absurd (by rw [hb']; rfl) (hnone hc hlt (w := w))

theorem lowSurrogate_escapeU {x : Nat} (hlt : c < 0xDC00) (t : Bytes) : lowSurrogate x (escapeU c ++ t) = none := by
  have hu := hex4_eq (c := c) (by omega)
  simp only [lowSurrogate, escapeU, List.cons_append, hu]
  exact if_neg (by omega)

theorem lowSurrogate_of_ne {x : Nat} (hb : b ≠ 92) : lowSurrogate x (b :: t) = none := by
  unfold lowSurrogate
  split
  · rename_i heq
    exact absurd (List.cons.inj heq).1 hb
  · rfl

theorem Spells.lowSurrogate_escapeHTML {x : Nat} (h : Spells t s) (hx : lowSurrogate x t = none) : lowSurrogate x (escapeHTML t) = none := by
  cases h with
  | nil => rfl
  | @plain b t s hlt _ _ hslash _ =>
    rcases escapeHTML_cases b t with ⟨hspecial, he⟩ | ⟨c, hc, r, hr, he⟩ | he
    · rw [he]
      exact lowSurrogate_escapeU (by omega) _
    · rw [he]
      exact lowSurrogate_escapeU (by simp at hc; omega) _
    · rw [he]
      exact lowSurrogate_of_ne hslash
  | @esc c t s hc _ =>
    rw [escapeHTML_copied (by decide), escapeHTML_copied (copied_of_escape hc)]
    have h117 : c ≠ 117 := by rintro rfl; cases hc
    unfold lowSurrogate
    split
    · rename_i heq
      exact absurd (List.cons.inj (List.cons.inj heq).2).1 h117
    · rfl
  | code hx' _ _ =>
    rw [escapeHTML_hex hx']
    exact hx
  | pair hx' _ _ _ _ =>
    rw [escapeHTML_hex hx']
    exact hx
  | lone hx' _ _ _ =>
    rw [escapeHTML_hex hx']
    exact hx
  | @rune c t s hc hge _ =>
    rw [escapeHTML_rune hc hge]
    split_ifs with hsep
    · exact lowSurrogate_escapeU (by omega) _
    · obtain ⟨b, u, hb⟩ := List.exists_cons_of_ne_nil (Utf8.encodeRune_ne_nil c)
      rw [hb]
      refine lowSurrogate_of_ne ?_
      rintro rfl
      have := high_of_mem_encodeRune hge hc (b := 92) (hb ▸ List.mem_cons_self)
      simp at this
  | @bad b t s hd hge _ =>
    rw [(escapeHTML_bad hd hge).1]
    refine lowSurrogate_of_ne ?_
    rintro rfl
    simp at hge

theorem Spells.escapeHTML (h : Spells lit s) : Spells (escapeHTML lit) s ∧ Json.escapeHTML (Json.escapeHTML lit) = Json.escapeHTML lit := by
  induction h with
  | nil => exact ⟨.nil, rfl⟩
  | @plain b t s hlt hge hquote hslash _ ih =>
    by_cases hcopied : Copied b
    · rw [escapeHTML_copied hcopied, escapeHTML_copied hcopied, ih.2]
      exact ⟨.plain hlt hge hquote hslash ih.1, rfl⟩
    · have hspecial : b = 60 ∨ b = 62 ∨ b = 38 := by
        by_contra hne
        refine hcopied ⟨fun h => hne (.inl h), fun h => hne (.inr (.inl h)), fun h => hne (.inr (.inr h)), ?_⟩
        rintro rfl
        simp at hlt
      have hb : Utf8.encodeRune b.toNat = [b] := by rw [Utf8.encodeRune, if_pos hlt, Utf8.ofNat_eq rfl]
      have hu := ih.1.escapeU (c := b.toNat) (.inl (by omega)) (by omega)
      rw [hb] at hu
      rw [escapeHTML_special hspecial, escapeHTML_escapeU, ih.2]
      exact ⟨hu, rfl⟩
  | @esc c t s hc _ ih =>
    rw [escapeHTML_copied (by decide), escapeHTML_copied (copied_of_escape hc), escapeHTML_copied (by decide), escapeHTML_copied (copied_of_escape hc), ih.2]
    exact ⟨.esc hc ih.1, rfl⟩
  | code hx hu _ ih =>
    rw [escapeHTML_hex hx, escapeHTML_hex hx, ih.2]
    exact ⟨.code hx hu ih.1, rfl⟩
  | pair hx hx' hu hv _ ih =>
    rw [escapeHTML_hex hx, escapeHTML_hex hx', escapeHTML_hex hx, escapeHTML_hex hx', ih.2]
    exact ⟨.pair hx hx' hu hv ih.1, rfl⟩
  | lone hx hu hv h ih =>
    rw [escapeHTML_hex hx, escapeHTML_hex hx, ih.2]
    exact ⟨.lone hx hu (h.lowSurrogate_escapeHTML hv) ih.1, rfl⟩
  | @rune c t s hc hge _ ih =>
    rw [escapeHTML_rune hc hge]
    split_ifs with hsep
    · rw [escapeHTML_escapeU, ih.2]
      exact ⟨ih.1.escapeU hc (by omega), rfl⟩
    · rw [escapeHTML_rune hc hge, if_neg hsep, ih.2]
      exact ⟨.rune hc hge ih.1, rfl⟩
  | bad hd hge _ ih =>
    obtain ⟨he, hd'⟩ := escapeHTML_bad hd hge
    rw [he, (escapeHTML_bad hd' hge).1, ih.2]
    exact ⟨.bad hd' hge ih.1, rfl⟩

theorem strLit_escapeHTML (h : StrLit lit) : StrLit (escapeHTML lit) := (spells_unquote h).escapeHTML.1.strLit

theorem unquote_escapeHTML (h : StrLit lit) : unquote (escapeHTML lit) = unquote lit := (spells_unquote h).escapeHTML.1.unquote_eq

theorem escapeHTML_escapeHTML (h : StrLit lit) : escapeHTML (escapeHTML lit) = escapeHTML lit := (spells_unquote h).escapeHTML.2

theorem htmlItems_eq (vs : List Json) : htmlItems vs = vs.map html := by
  induction vs with
  | nil => rfl
  | cons v vs ih => rw [htmlItems, ih, List.map_cons]

mutual

theorem wf_html : ∀ v : Json, Wf v → Wf (html v)
  | .null, _ => trivial
  | .bool _, _ => trivial
  | .num _, h => h
  | .str _, h => strLit_escapeHTML h
  | .arr items, h => wf_htmlItems items h
  | .obj ms, h => wf_htmlMembers ms h

theorem wf_htmlItems : ∀ vs : List Json, WfItems vs → WfItems (htmlItems vs)
  | [], _ => trivial
  | v :: vs, h => ⟨wf_html v h.1, wf_htmlItems vs h.2⟩

theorem wf_htmlMembers : ∀ ms : List (Bytes × Json), WfMembers ms → WfMembers (htmlMembers ms)
  | [], _ => trivial
  | (_, v) :: ms, h => ⟨strLit_escapeHTML h.1, wf_html v h.2.1, wf_htmlMembers ms h.2.2⟩

end

mutual

theorem html_html : ∀ v : Json, Wf v → html (html v) = html v
  | .null, _ => rfl
  | .bool _, _ => rfl
  | .num _, _ => rfl
  | .str _, h => congrArg Json.str (escapeHTML_escapeHTML h)
  | .arr items, h => congrArg Json.arr (html_htmlItems items h)
  | .obj ms, h => congrArg Json.obj (html_htmlMembers ms h)

theorem html_htmlItems : ∀ vs : List Json, WfItems vs → htmlItems (htmlItems vs) = htmlItems vs
  | [], _ => rfl
  | v :: vs, h => congrArg₂ List.cons (html_html v h.1) (html_htmlItems vs h.2)

theorem html_htmlMembers : ∀ ms : List (Bytes × Json), WfMembers ms → htmlMembers (htmlMembers ms) = htmlMembers ms
  | [], _ => rfl
  | (_, v) :: ms, h => congrArg₂ List.cons (congrArg₂ Prod.mk (escapeHTML_escapeHTML h.1) (html_html v h.2.1)) (html_htmlMembers ms h.2.2)

end

mutual

theorem depth_html : ∀ v : Json, depth (html v) = depth v
  | .null => rfl
  | .bool _ => rfl
  | .num _ => rfl
  | .str _ => rfl
  | .arr items => congrArg (· + 1) (depth_htmlItems items)
  | .obj ms => congrArg (· + 1) (depth_htmlMembers ms)

theorem depth_htmlItems : ∀ vs : List Json, depthItems (htmlItems vs) = depthItems vs
  | [] => rfl
  | v :: vs => congrArg₂ max (depth_html v) (depth_htmlItems vs)

theorem depth_htmlMembers : ∀ ms : List (Bytes × Json), depthMembers (htmlMembers ms) = depthMembers ms
  | [] => rfl
  | (_, v) :: ms => congrArg₂ max (depth_html v) (depth_htmlMembers ms)

end

def marks (s : Bytes) : Nat := s.countP fun b => decide (b = 34 ∨ b = 92)

theorem marks_append (s t : Bytes) : marks (s ++ t) = marks s + marks t := List.countP_append ..

theorem marks_of_high (h : ∀ b ∈ s, 0x80 ≤ b.toNat) : marks s = 0 := by
  refine List.countP_eq_zero.2 fun b hb hmark => ?_
  have := h b hb
  rcases of_decide_eq_true hmark with rfl | rfl <;> simp at this

theorem marks_encodeRune_le (c : Nat) : marks (Utf8.encodeRune c) ≤ 1 := by
  by_cases hlt : c < 0x80
  · rw [Utf8.encodeRune, if_pos hlt]
    exact List.countP_le_length
  · by_cases hc : Utf8.IsScalar c
    · rw [marks_of_high fun b hb => high_of_mem_encodeRune (by omega) hc hb]
      omega
    · have he : Utf8.encodeRune c = [0xEF, 0xBF, 0xBD] := by
        have : ¬c < 0x800 := fun h => hc (.inl (by omega))
        rw [Utf8.encodeRune, if_neg hlt, if_neg this, if_pos hc]
      rw [he]
      decide

theorem Spells.marks_le (h : Spells lit s) : marks s ≤ marks lit := by
  have hslash (t : Bytes) : marks (92 :: t) = marks t + 1 := List.countP_cons_of_pos (by simp)
  have hhex (a b c d : UInt8) (t : Bytes) : marks t + 1 ≤ marks (92 :: 117 :: a :: b :: c :: d :: t) := by
    have hsub : List.Sublist t ([117, a, b, c, d] ++ t) := (List.suffix_append _ t).sublist
    rw [hslash]
    exact Nat.add_le_add_right hsub.countP_le 1
  have hrune (c : Nat) (s : Bytes) : marks (Utf8.encodeRune c ++ s) ≤ marks s + 1 := by
    have := marks_encodeRune_le c
    rw [marks_append]
    omega
  induction h with
  | nil => exact le_rfl
  | @plain b t s _ _ _ _ _ ih =>
    unfold marks at ih ⊢
    rw [List.countP_cons, List.countP_cons]
    omega
  | @esc c t s _ _ ih =>
    have hc : marks [unescape c] ≤ 1 := List.countP_le_length
    have hsub : marks t ≤ marks (c :: t) := (List.sublist_cons_self c t).countP_le
    rw [hslash, ← List.singleton_append, marks_append]
    omega
  | @code a b c d t s _ _ _ ih =>
    have := hhex a b c d t
    have := hrune (hex4 a b c d) s
    omega
  | @pair a b c d a' b' c' d' v t s _ _ _ _ _ ih =>
    have := hhex a b c d (92 :: 117 :: a' :: b' :: c' :: d' :: t)
    have := hhex a' b' c' d' t
    have := hrune v s
    omega
  | @lone a b c d t s _ _ _ _ ih =>
    have := hhex a b c d t
    have := hrune Utf8.runeError s
    omega
  | rune _ _ _ ih =>
    rw [marks_append, marks_append]
    omega
  | @bad b t s _ _ _ ih =>
    have hsub : marks t ≤ marks (b :: t) := (List.sublist_cons_self b t).countP_le
    have hnone : marks (Utf8.encodeRune Utf8.runeError) = 0 := by decide
    rw [marks_append]
    omega

def weight : List Token → Nat
  | [] => 0
  | .str lit :: ts => marks lit + 2 + weight ts
  | _ :: ts => weight ts

def Lex.pending : Lex → Nat
  | .str _ acc => marks acc + 1
  | .word _ tok => weight [tok]
  | _ => 0

theorem weight_append (ts us : List Token) : weight (ts ++ us) = weight ts + weight us := by
  induction ts with
  | nil => simp [weight]
  | cons t ts ih =>
    cases t <;> simp [weight, ih]
    omega

theorem idle_pending : ∀ n < 256, (idleStep (UInt8.ofNat n)).all (fun r => decide (weight r.2 + r.1.pending ≤ marks [UInt8.ofNat n])) = true := by
  decide +kernel

theorem idleStep_pending {b : UInt8} {r : Lex × List Token} (h : idleStep b = some r) : weight r.2 + r.1.pending ≤ marks [b] := by
  have hb := idle_pending b.toNat b.toNat_lt
  rw [UInt8.ofNat_toNat, h, Option.all_some] at hb
  exact of_decide_eq_true hb

theorem lexStep_pending {st : Lex} {b : UInt8} {r : Lex × List Token} (h : lexStep st b = some r) :
    weight r.2 + r.1.pending ≤ st.pending + marks [b] := by
  cases lexStep_cases h with
  | idle h => exact (idleStep_pending h).trans (Nat.le_add_left _ _)
  | @close acc hq =>
    have hrev : marks acc.reverse = marks acc := List.countP_reverse
    have hb : marks [b] = 1 := by rw [hq]; rfl
    simp only [weight, Lex.pending]
    omega
  | @str st st' acc =>
    have := marks_append [b] acc
    simp only [weight, Lex.pending] at this ⊢
    rw [List.singleton_append] at this
    omega
  | num => exact Nat.zero_le _
  | number _ _ hx => exact (idleStep_pending hx).trans (Nat.le_add_left _ _)
  | word => exact Nat.le_add_right _ _
  | letter =>
    simp only [weight, Lex.pending]
    omega

theorem lexRun_pending {st : Lex} {x : Bytes} {r : Lex × List Token} (h : lexRun st x = some r) :
    weight r.2 + r.1.pending ≤ st.pending + marks x := by
  induction x generalizing st r with
  | nil =>
    obtain rfl := Option.some.inj h
    simp [weight]
  | cons b x ih =>
    rw [lexRun] at h
    obtain ⟨q, hq, h⟩ := Option.bind_eq_some_iff.1 h
    obtain ⟨q', hq', rfl⟩ := Option.map_eq_some_iff.1 h
    have hfirst := lexStep_pending hq
    have hrest := ih hq'
    have hmarks := marks_append [b] x
    rw [List.singleton_append] at hmarks
    show weight (q.2 ++ q'.2) + q'.1.pending ≤ st.pending + marks (b :: x)
    rw [weight_append]
    omega

theorem weight_le {s : Bytes} {ts : List Token} (h : tokens s = some ts) : weight ts ≤ marks s := by
  obtain ⟨⟨st, us⟩, hr, h⟩ := Option.bind_eq_some_iff.1 h
  obtain ⟨l, hl, rfl⟩ := Option.map_eq_some_iff.1 h
  have hrun : weight us + st.pending ≤ 0 + marks s := lexRun_pending hr
  have hlast : weight l = 0 := by
    cases st with
    | idle =>
      obtain rfl := Option.some.inj hl
      rfl
    | num st acc =>
      simp only [Lex.finish] at hl
      split_ifs at hl
      obtain rfl := Option.some.inj hl
      rfl
    | _ => cases hl
  show weight (us ++ l) ≤ marks s
  rw [weight_append]
  omega

theorem marks_lt_of_parse {s lit : Bytes} (h : parse s = some (.str lit)) : marks (unquote lit) < marks s := by
  have htoks := parse_sound h
  have hweight := weight_le htoks
  have hlit := strLit_of_tokens htoks lit List.mem_cons_self
  have hle := (spells_unquote hlit).marks_le
  simp only [toks, weight] at hweight
  omega

theorem marks_trimSpace_le (s : Bytes) : marks (Utf8.trimSpace s) ≤ marks s := by
  have hsub : List.Sublist (Utf8.trimSpace s) s := by
    conv_rhs => rw [← Utf8.runes_flatten s]
    unfold Utf8.trimSpace
    refine List.Sublist.flatMap ?_ _
    rw [← List.reverse_sublist, List.reverse_reverse]
    exact (List.dropWhile_sublist _).trans (List.dropWhile_sublist _).reverse
  exact hsub.countP_le

end Json
