import Privahub.Lib.JsonWrite
import Mathlib.Data.List.Chain

/-!
# Quoted names inside a written text

A quote of a text is read either as a token's or, inside a literal, behind a backslash. So a name in quotes with a colon behind it, wherever it
stands in a text, is the end of a key (`key_of_infix`); an object of scalars has no keys but those of its members (`isChain_toks`). `repair` changes
exactly the strings that are not valid UTF-8 (`repair_eq_self_iff`).
-/

namespace Json

variable {st st' : Lex} {a b name text : Bytes} {ts us : List Token}

def Lex.Quoteless : Lex → Prop
  | .word left _ => ∀ c ∈ left, c ≠ 34
  | _ => True

instance : ∀ st : Lex, Decidable st.Quoteless
  | .idle | .str _ _ | .num _ _ => .isTrue trivial
  | .word left _ => inferInstanceAs (Decidable (∀ c ∈ left, c ≠ 34))

theorem quoteless_idleStep {c : UInt8} {r : Lex × List Token} (h : idleStep c = some r) : r.1.Quoteless := by
  have key : ∀ n < 256, ∀ r ∈ idleStep (UInt8.ofNat n), r.1.Quoteless := by decide +kernel
  refine key c.toNat c.toNat_lt r ?_
  rwa [UInt8.ofNat_toNat]

theorem quoteless_lexStep {c : UInt8} {r : Lex × List Token} (hst : st.Quoteless) (h : lexStep st c = some r) : r.1.Quoteless := by
  cases lexStep_cases h with
  | idle hx => exact quoteless_idleStep hx
  | number _ _ hx =>
    have hnext := quoteless_idleStep hx
    exact hnext
  | letter => exact fun c hc => hst c (List.mem_cons_of_mem _ hc)
  | _ => trivial

theorem quoteless_lexRun (hst : st.Quoteless) (h : lexRun st a = some (st', ts)) : st'.Quoteless :=
  (lexRun_keeps (J := fun _ => True) (fun hst h => ⟨quoteless_lexStep hst h, fun _ _ => trivial⟩) hst h).1

structure PlainName (name : Bytes) : Prop where
  plain : ∀ acc, lexRun (.str .plain acc) name = some (.str .plain (name.reverse ++ acc), [])
  stuck : lexRun .idle name = none

theorem lexRun_close (hname : PlainName name) (acc : Bytes) :
    lexRun (.str .plain acc) (name ++ [34, 58]) = some (.idle, [.str (acc.reverse ++ name), .colon]) := by
  rw [lexRun_append, hname.plain]
  simp [lexRun, lexStep, idleStep, isSpace]

theorem lexRun_quoted (hname : PlainName name) (hst : st.Quoteless) (h : lexRun st (34 :: (name ++ [34, 58])) = some (st', ts)) :
    ∃ l vs, name <:+ l ∧ ts = vs ++ [.str l, .colon] := by
  obtain ⟨⟨s, us⟩, hs, h⟩ := Option.bind_eq_some_iff.1 h
  obtain ⟨⟨s', ws⟩, hrest, h⟩ := Option.map_eq_some_iff.1 h
  cases h
  have hstuck : ∀ {q}, lexRun .idle (name ++ [34, 58]) ≠ some q := by
    intro q hq
    rw [lexRun_append, hname.stuck] at hq
    cases hq
  have hopen : ∀ {acc q}, lexRun (.str .plain acc) (name ++ [34, 58]) = some q → q.2 = [.str (acc.reverse ++ name), .colon] := by
    intro acc q hq
    rw [lexRun_close hname] at hq
    cases hq
    rfl
  cases st with
  | idle =>
    obtain ⟨rfl, rfl⟩ : s = .str .plain [] ∧ us = [] := by
      rw [lexStep, show idleStep 34 = some (.str .plain [], []) from by decide] at hs
      cases hs
      exact ⟨rfl, rfl⟩
    exact ⟨_, [], List.suffix_append _ _, hopen hrest⟩
  | str state acc =>
    cases state with
    | plain =>
      obtain rfl : s = .idle := by
        simp only [lexStep, if_true] at hs
        cases hs
        rfl
      exact absurd hrest hstuck
    | esc =>
      obtain ⟨rfl, rfl⟩ : s = .str .plain (34 :: acc) ∧ us = [] := by
        have hs : (strStep .esc 34).map (fun st => (Lex.str st (34 :: acc), ([] : List Token))) = some (s, us) := hs
        rw [show strStep .esc 34 = some .plain from by decide] at hs
        cases hs
        exact ⟨rfl, rfl⟩
      exact ⟨_, [], List.suffix_append _ _, hopen hrest⟩
    | hex n =>
      have hs : (strStep (.hex n) 34).map (fun st => (Lex.str st (34 :: acc), ([] : List Token))) = some (s, us) := hs
      rw [strStep, if_neg (by decide)] at hs
      cases hs
  | num state acc =>
    have hnum : numStep state 34 = none := by cases state <;> decide
    rw [lexStep, hnum] at hs
    simp only at hs
    split_ifs at hs
    rw [show idleStep 34 = some (.str .plain [], []) from by decide] at hs
    cases hs
    exact ⟨_, [.num acc.reverse], List.suffix_append _ _, congrArg _ (hopen hrest)⟩
  | word left tok =>
    cases left with
    | nil => cases hs
    | cons c left =>
      rw [lexStep, if_neg (hst c List.mem_cons_self).symm] at hs
      cases hs

theorem key_of_infix (hname : PlainName name) (h : 34 :: (name ++ [34, 58]) <:+: text) (ht : tokens text = some ts) :
    ∃ l, name <:+ l ∧ [.str l, .colon] <:+: ts := by
  obtain ⟨a, b, rfl⟩ := h
  obtain ⟨⟨s, us⟩, hrun, hfin⟩ := Option.bind_eq_some_iff.1 ht
  obtain ⟨fin, -, rfl⟩ := Option.map_eq_some_iff.1 hfin
  rw [List.append_assoc, lexRun_append] at hrun
  obtain ⟨⟨s1, us1⟩, h1, hrun⟩ := Option.bind_eq_some_iff.1 hrun
  obtain ⟨⟨s2, us2⟩, h2, hrun⟩ := Option.map_eq_some_iff.1 hrun
  cases hrun
  rw [lexRun_append] at h2
  obtain ⟨⟨s3, us3⟩, h3, h2⟩ := Option.bind_eq_some_iff.1 h2
  obtain ⟨⟨s4, us4⟩, -, h2⟩ := Option.map_eq_some_iff.1 h2
  cases h2
  obtain ⟨l, vs, hl, rfl⟩ := lexRun_quoted hname (quoteless_lexRun (show Lex.idle.Quoteless from trivial) h1) h3
  exact ⟨l, hl, us1 ++ vs, us4 ++ fin, by simp⟩

def KeyBefore (keys : List Bytes) (x y : Token) : Prop := y = .colon → ∃ k ∈ keys, x = .str k

theorem isChain_toks {keys : List Bytes} (ms : List (Bytes × Json)) (h : ∀ m ∈ ms, m.1 ∈ keys ∧ ∃ t, toks m.2 = [t] ∧ t ≠ .colon) :
    List.IsChain (KeyBefore keys) (toks (.obj ms)) := by
  have hne : ∀ {x y : Token}, y ≠ .colon → KeyBefore keys x y := fun hy he => absurd he hy
  have key : ∀ (ms : List (Bytes × Json)) (x : Token), (∀ m ∈ ms, m.1 ∈ keys ∧ ∃ t, toks m.2 = [t] ∧ t ≠ .colon) →
      List.IsChain (KeyBefore keys) (x :: (List.intercalate [.comma] (toksMembers ms) ++ [.rbrace])) := by
    intro ms
    induction ms with
    | nil => exact fun x _ => .cons_cons (hne (by simp)) (.singleton _)
    | cons m ms ih =>
      intro x hms
      obtain ⟨k, v⟩ := m
      obtain ⟨hk, t, ht, hcolon⟩ := hms _ List.mem_cons_self
      have hrest := fun m hm => hms m (List.mem_cons_of_mem _ hm)
      have hhead : ∀ {rest : List Token}, List.IsChain (KeyBefore keys) (t :: rest) → List.IsChain (KeyBefore keys) (x :: .str k :: .colon :: t :: rest) :=
        fun hr => .cons_cons (hne (by simp)) (.cons_cons (fun _ => ⟨k, hk, rfl⟩) (.cons_cons (hne hcolon) hr))
      cases ms with
      | nil =>
        have hr := hhead (.cons_cons (hne (y := .rbrace) (by simp)) (.singleton _))
        simpa [toksMembers, ht] using hr
      | cons m' ms =>
        have hr := hhead (.cons_cons (hne (y := .comma) (by simp)) (ih .comma hrest))
        rw [toksMembers] at hr ⊢
        rw [toksMembers, List.intercalate_cons_cons, ht]
        simpa [toksMembers] using hr
  rw [toks, List.cons_append]
  exact key ms _ h

theorem not_infix_render {ms : List (Bytes × Json)} (hname : PlainName name) (hwf : Wf (.obj ms)) (hms : ∀ m ∈ ms, ∃ t, toks m.2 = [t] ∧ t ≠ .colon)
    (hkeys : ∀ k ∈ ms.map Prod.fst, ¬ name <:+ k) : ¬ 34 :: (name ++ [34, 58]) <:+: render (.obj ms) := by
  intro h
  obtain ⟨l, hl, hin⟩ := key_of_infix hname h (tokens_render _ hwf)
  have hmem : ∀ m ∈ ms, m.1 ∈ ms.map Prod.fst ∧ ∃ t, toks m.2 = [t] ∧ t ≠ .colon := fun m hm => ⟨List.mem_map_of_mem hm, hms m hm⟩
  have hchain := List.IsChain.infix (isChain_toks ms hmem) hin
  obtain ⟨k, hk, he⟩ := (List.isChain_cons_cons.1 hchain).1 rfl
  cases he
  exact hkeys _ hk hl

theorem length_repair (s : Bytes) : (repair s).length = s.length + 2 * (Utf8.runes s).countP Utf8.invalid := by
  have key : ∀ l : List (Nat × Bytes), (l.flatMap fun r => if Utf8.invalid r then Utf8.encodeRune Utf8.runeError else r.2).length =
      (l.flatMap Prod.snd).length + 2 * l.countP Utf8.invalid := by
    intro l
    induction l with
    | nil => rfl
    | cons r l ih =>
      rw [List.flatMap_cons, List.flatMap_cons, List.length_append, List.length_append, ih, List.countP_cons]
      by_cases hr : Utf8.invalid r = true
      · have h1 : r.2.length = 1 := by simpa [Utf8.invalid] using (Bool.and_eq_true_iff.1 hr).2
        rw [if_pos hr, if_pos hr, h1, show (Utf8.encodeRune Utf8.runeError).length = 3 from rfl]
        omega
      · rw [if_neg hr, if_neg hr]
        omega
  rw [repair, key, Utf8.runes_flatten]

theorem repair_eq_self_iff (s : Bytes) : repair s = s ↔ Utf8.validString s = true := by
  refine ⟨fun h => ?_, repair_eq_self⟩
  have hlen := length_repair s
  rw [h] at hlen
  have hzero : (Utf8.runes s).countP Utf8.invalid = 0 := by omega
  exact List.all_eq_true.2 fun r hr => by simpa using List.countP_eq_zero.1 hzero r hr

end Json
