import Privahub.Lib.JsonWrite
import Mathlib.Data.List.Induction

/-!
# What a parsed text consists of

`parse_sound`: the tokens of an accepted text are those of its tree, white space apart. Half a text
leaves the parser with the tokens of the containers that are still open (`consumed`), and every step
adds the token it reads. `toks_injective`: a tree is determined by its tokens.
-/

namespace Json

def opened (parts : List (List Token)) : List Token := parts.reverse.flatMap (· ++ [.comma])

def memberToks (m : Bytes × Json) : List Token := .str m.1 :: .colon :: toks m.2

def Frame.toks : Frame → List Token
  | .arr done => .lbrack :: opened (done.map Json.toks)
  | .obj done key => .lbrace :: opened (done.map memberToks) ++ [.str key, .colon]

def stackToks (fs : List Frame) : List Token := fs.reverse.flatMap Frame.toks

def closedToks : Frame → List Token
  | .arr done => .lbrack :: List.intercalate [.comma] (done.map Json.toks).reverse
  | .obj done _ => .lbrace :: List.intercalate [.comma] (done.map memberToks).reverse

inductive Consumed : Parser → List Token → Prop
  | value (fs) : Consumed ⟨fs, .value⟩ (stackToks fs)
  | valueOrEnd (fs) : Consumed ⟨.arr [] :: fs, .valueOrEnd⟩ (stackToks fs ++ [.lbrack])
  | keyOrEnd (fs k) : Consumed ⟨.obj [] k :: fs, .keyOrEnd⟩ (stackToks fs ++ [.lbrace])
  | key (fs done k) : Consumed ⟨.obj done k :: fs, .key⟩ (stackToks fs ++ .lbrace :: opened (done.map memberToks))
  | colon (fs done k) : Consumed ⟨.obj done k :: fs, .colon⟩ (stackToks fs ++ .lbrace :: opened (done.map memberToks) ++ [.str k])
  | arr (fs v done) : Consumed ⟨.arr (v :: done) :: fs, .commaOrEnd⟩ (stackToks fs ++ closedToks (.arr (v :: done)))
  | obj (fs m done k) : Consumed ⟨.obj (m :: done) k :: fs, .commaOrEnd⟩ (stackToks fs ++ closedToks (.obj (m :: done) k))
  | eof (v) : Consumed ⟨[], .eof v⟩ (toks v)

variable {fs : List Frame} {ts : List Token} {p p' : Parser} {t : Token}

theorem intercalate_concat (parts : List (List Token)) (x : List Token) :
    List.intercalate [.comma] (parts ++ [x]) = parts.flatMap (· ++ [.comma]) ++ x := by
  induction parts with
  | nil => simp
  | cons y parts ih => rw [List.cons_append, List.intercalate_cons_of_ne_nil (by simp), ih]; simp

theorem consumed_complete (fs : List Frame) (v : Json) : Consumed (.complete fs v) (stackToks fs ++ toks v) := by
  match fs with
  | [] => exact .eof v
  | .arr done :: fs =>
    have h : stackToks (.arr done :: fs) ++ toks v = stackToks fs ++ closedToks (.arr (v :: done)) := by
      simp [stackToks, Frame.toks, closedToks, intercalate_concat, opened]
    exact h ▸ .arr fs v done
  | .obj done key :: fs =>
    have h : stackToks (.obj done key :: fs) ++ toks v = stackToks fs ++ closedToks (.obj ((key, v) :: done) key) := by
      simp [stackToks, Frame.toks, closedToks, intercalate_concat, opened, memberToks]
    exact h ▸ .obj fs (key, v) done key

theorem consumed_value (h : Parser.value fs t = some p) : Consumed p (stackToks fs ++ [t]) := by
  unfold Parser.value at h
  split at h <;> try simp only [Parser.push] at h
  · obtain rfl := Option.some.inj h; exact consumed_complete fs .null
  · obtain rfl := Option.some.inj h; exact consumed_complete fs (.bool _)
  · obtain rfl := Option.some.inj h; exact consumed_complete fs (.num _)
  · obtain rfl := Option.some.inj h; exact consumed_complete fs (.str _)
  · split_ifs at h
    obtain rfl := Option.some.inj h
    exact .valueOrEnd fs
  · split_ifs at h
    obtain rfl := Option.some.inj h
    exact .keyOrEnd fs []
  · cases h

theorem toksItems_eq (vs : List Json) : toksItems vs = vs.map toks := by
  induction vs with
  | nil => rfl
  | cons v vs ih => simp [toksItems, ih]

theorem toksMembers_eq (ms : List (Bytes × Json)) : toksMembers ms = ms.map memberToks := by
  induction ms with
  | nil => rfl
  | cons m ms ih => simp [toksMembers, memberToks, ih]

theorem toks_arr_reverse (done : List Json) : toks (.arr done.reverse) = closedToks (.arr done) ++ [.rbrack] := by
  simp [toks, closedToks, toksItems_eq]

theorem toks_obj_reverse (done : List (Bytes × Json)) (k : Bytes) : toks (.obj done.reverse) = closedToks (.obj done k) ++ [.rbrace] := by
  simp [toks, closedToks, toksMembers_eq]

theorem consumed_close {f : Frame} (h : Parser.close (f :: fs) t = some p) : Consumed p (stackToks fs ++ closedToks f ++ [t]) := by
  unfold Parser.close at h
  split at h
  · rename_i done gs he
    obtain ⟨rfl, rfl⟩ := List.cons.inj he
    obtain rfl := Option.some.inj h
    rw [List.append_assoc, ← toks_arr_reverse]
    exact consumed_complete fs _
  · rename_i done k gs he
    obtain ⟨rfl, rfl⟩ := List.cons.inj he
    obtain rfl := Option.some.inj h
    rw [List.append_assoc, ← toks_obj_reverse]
    exact consumed_complete fs _
  · cases h

theorem consumed_step (h : Consumed p ts) (hs : parseStep p t = some p') : Consumed p' (ts ++ [t]) := by
  cases h with
  | value fs => exact consumed_value hs
  | valueOrEnd fs =>
    simp only [parseStep] at hs
    split_ifs at hs
    · exact consumed_close hs
    · have h := consumed_value hs
      simpa [stackToks, Frame.toks, opened] using h
  | keyOrEnd fs k =>
    simp only [parseStep] at hs
    split at hs
    · rename_i k
      obtain rfl := Option.some.inj hs
      have h := Consumed.colon fs [] k
      simpa [opened] using h
    · exact consumed_close hs
    · cases hs
  | key fs done k =>
    simp only [parseStep] at hs
    split at hs
    · rename_i k
      obtain rfl := Option.some.inj hs
      exact .colon fs done k
    · cases hs
  | colon fs done k =>
    simp only [parseStep] at hs
    split_ifs at hs with ht
    obtain rfl := Option.some.inj hs
    have h := Consumed.value (.obj done k :: fs)
    simpa [stackToks, Frame.toks, ht] using h
  | arr fs v done =>
    simp only [parseStep] at hs
    split_ifs at hs with ht
    · obtain rfl := Option.some.inj hs
      have h := Consumed.value (.arr (v :: done) :: fs)
      simpa [stackToks, Frame.toks, closedToks, intercalate_concat, opened, ht] using h
    · exact consumed_close hs
  | obj fs m done k =>
    simp only [parseStep] at hs
    split_ifs at hs with ht
    · obtain rfl := Option.some.inj hs
      have h := Consumed.key fs (m :: done) k
      simpa [closedToks, intercalate_concat, opened, ht] using h
    · exact consumed_close hs
  | eof v => simp [parseStep] at hs

theorem consumed_parseTokens {us : List Token} (h : Consumed p ts) (hs : parseTokens p us = some p') : Consumed p' (ts ++ us) := by
  induction us generalizing p ts with
  | nil =>
    obtain rfl := Option.some.inj hs
    simpa using h
  | cons t us ih =>
    rw [parseTokens_cons] at hs
    obtain ⟨q, hq, hs⟩ := Option.bind_eq_some_iff.1 hs
    have hstep := ih (consumed_step h hq) hs
    simpa using hstep

theorem parse_sound {s : Bytes} {v : Json} (h : parse s = some v) : tokens s = some (toks v) := by
  simp only [parse, Option.bind_eq_bind, Option.bind_eq_some_iff] at h
  obtain ⟨us, hus, p, hp, hv⟩ := h
  have hc : Consumed p us := consumed_parseTokens (.value []) hp
  cases hc with
  | eof w =>
    obtain rfl := Option.some.inj hv
    exact hus
  | _ => simp at hv

def Token.closes : Token → Bool
  | .rbrack | .rbrace | .comma | .colon => true
  | _ => false

theorem exists_toks_opens (v : Json) : ∃ t us, toks v = t :: us ∧ t.closes = false := by
  cases v <;> exact ⟨_, _, rfl, rfl⟩

mutual

theorem toks_append_inj : ∀ (v w : Json) {r r' : List Token}, toks v ++ r = toks w ++ r' → v = w ∧ r = r'
  | .null, w, r, r', h => by cases w <;> simp_all [toks]
  | .bool _, w, r, r', h => by cases w <;> simp_all [toks]
  | .num _, w, r, r', h => by cases w <;> simp_all [toks]
  | .str _, w, r, r', h => by cases w <;> simp_all [toks]
  | .arr vs, w, r, r', h => by
    cases w with
    | arr ws =>
      simp only [toks, List.cons_append, List.cons.injEq, true_and, List.append_assoc] at h
      obtain ⟨rfl, rfl⟩ := items_append_inj vs ws h
      exact ⟨rfl, rfl⟩
    | _ => simp [toks] at h
  | .obj ms, w, r, r', h => by
    cases w with
    | obj ns =>
      simp only [toks, List.cons_append, List.cons.injEq, true_and, List.append_assoc] at h
      obtain ⟨rfl, rfl⟩ := members_append_inj ms ns h
      exact ⟨rfl, rfl⟩
    | _ => simp [toks] at h

theorem items_append_inj : ∀ (vs ws : List Json) {r r' : List Token},
    List.intercalate [.comma] (toksItems vs) ++ .rbrack :: r = List.intercalate [.comma] (toksItems ws) ++ .rbrack :: r' →
    vs = ws ∧ r = r'
  | [], [], _, _, h => by simpa [toksItems] using h
  | [], w :: ws, _, _, h => by
    obtain ⟨t, us, ht, ho⟩ := exists_toks_opens w
    cases ws <;> simp only [toksItems, List.intercalate_nil, List.intercalate_singleton, List.intercalate_cons_cons, ht,
      List.nil_append, List.cons_append, List.cons.injEq] at h <;> rw [← h.1] at ho <;> cases ho
  | [v], [], _, _, h => by
    obtain ⟨t, us, ht, ho⟩ := exists_toks_opens v
    simp only [toksItems, List.intercalate_nil, List.intercalate_singleton, ht, List.nil_append, List.cons_append,
      List.cons.injEq] at h
    rw [h.1] at ho; cases ho
  | [v], [w], _, _, h => by
    simp only [toksItems, List.intercalate_singleton] at h
    obtain ⟨rfl, hr⟩ := toks_append_inj v w h
    exact ⟨rfl, (List.cons.inj hr).2⟩
  | [v], w :: x :: ws, _, _, h => by
    simp only [toksItems, List.intercalate_singleton, List.intercalate_cons_cons, List.append_assoc] at h
    obtain ⟨-, h⟩ := toks_append_inj v w h
    simp at h
  | v :: x :: vs, [], _, _, h => by
    obtain ⟨t, us, ht, ho⟩ := exists_toks_opens v
    simp only [toksItems, List.intercalate_nil, List.intercalate_cons_cons, ht, List.nil_append, List.cons_append,
      List.cons.injEq] at h
    rw [h.1] at ho; cases ho
  | v :: x :: vs, [w], _, _, h => by
    simp only [toksItems, List.intercalate_singleton, List.intercalate_cons_cons, List.append_assoc] at h
    obtain ⟨-, h⟩ := toks_append_inj v w h
    simp at h
  | v :: x :: vs, w :: y :: ws, _, _, h => by
    rw [toksItems, toksItems, toksItems, toksItems, List.intercalate_cons_cons, List.intercalate_cons_cons, List.append_assoc,
      List.append_assoc, List.append_assoc, List.append_assoc] at h
    obtain ⟨rfl, hr⟩ := toks_append_inj v w h
    simp only [List.singleton_append, List.cons.injEq, true_and] at hr
    rw [← toksItems, ← toksItems] at hr
    obtain ⟨he, hr⟩ := items_append_inj (x :: vs) (y :: ws) hr
    exact ⟨by rw [he], hr⟩

theorem members_append_inj : ∀ (ms ns : List (Bytes × Json)) {r r' : List Token},
    List.intercalate [.comma] (toksMembers ms) ++ .rbrace :: r = List.intercalate [.comma] (toksMembers ns) ++ .rbrace :: r' →
    ms = ns ∧ r = r'
  | [], [], _, _, h => by simpa [toksMembers] using h
  | [], (k, w) :: ns, _, _, h => by
    cases ns <;> simp [toksMembers, List.intercalate_cons_cons] at h
  | [(k, v)], [], _, _, h => by simp [toksMembers] at h
  | [(k, v)], [(l, w)], _, _, h => by
    simp only [toksMembers, List.intercalate_singleton, List.cons_append, List.cons.injEq, Token.str.injEq, true_and] at h
    obtain ⟨rfl, h⟩ := h
    obtain ⟨rfl, hr⟩ := toks_append_inj v w h
    exact ⟨rfl, (List.cons.inj hr).2⟩
  | [(k, v)], (l, w) :: (l', y) :: ns, _, _, h => by
    simp only [toksMembers, List.intercalate_singleton, List.intercalate_cons_cons, List.append_assoc, List.cons_append,
      List.cons.injEq, true_and] at h
    obtain ⟨-, h⟩ := toks_append_inj v w h.2
    simp at h
  | (k, v) :: (k', x) :: ms, [], _, _, h => by simp [toksMembers, List.intercalate_cons_cons] at h
  | (k, v) :: (k', x) :: ms, [(l, w)], _, _, h => by
    simp only [toksMembers, List.intercalate_singleton, List.intercalate_cons_cons, List.append_assoc, List.cons_append,
      List.cons.injEq, true_and] at h
    obtain ⟨-, h⟩ := toks_append_inj v w h.2
    simp at h
  | (k, v) :: (k', x) :: ms, (l, w) :: (l', y) :: ns, _, _, h => by
    rw [toksMembers, toksMembers, toksMembers, toksMembers, List.intercalate_cons_cons, List.intercalate_cons_cons] at h
    simp only [List.append_assoc, List.cons_append, List.cons.injEq, Token.str.injEq, true_and] at h
    obtain ⟨rfl, h⟩ := h
    obtain ⟨rfl, hr⟩ := toks_append_inj v w h
    have hr := (List.cons.inj hr).2
    rw [List.nil_append, List.nil_append] at hr
    obtain ⟨he, hr⟩ := members_append_inj ((k', x) :: ms) ((l', y) :: ns) hr
    exact ⟨by rw [he], hr⟩

end

theorem toks_injective {v w : Json} (h : toks v = toks w) : v = w := by
  have h : toks v ++ [] = toks w ++ [] := by rw [h]
  exact (toks_append_inj v w h).1

/-- A byte of white space, of the control characters `unicode.IsSpace` adds to it, or of a longer rune. -/
def Blank (b : UInt8) : Prop := isSpace b = true ∨ b = 11 ∨ b = 12 ∨ 0x80 ≤ b

instance : DecidablePred Blank := fun _ => inferInstanceAs (Decidable (_ ∨ _))

theorem blank_facts : ∀ n < 256, Blank (UInt8.ofNat n) →
    ((idleStep (UInt8.ofNat n)).getD (.idle, []) = (.idle, []) ∧ UInt8.ofNat n ≠ 34 ∧ ¬ (97 ≤ UInt8.ofNat n ∧ UInt8.ofNat n ≤ 122)) ∧
      ∀ st ∈ [NumState.neg, .zero, .int, .dot, .frac, .exp, .expSign, .expDigits], numStep st (UInt8.ofNat n) = none := by
  decide +kernel

variable {b : UInt8}

theorem Blank.facts (h : Blank b) : ((idleStep b).getD (.idle, []) = (.idle, []) ∧ b ≠ 34 ∧ ¬ (97 ≤ b ∧ b ≤ 122)) ∧
    ∀ st ∈ [NumState.neg, .zero, .int, .dot, .frac, .exp, .expSign, .expDigits], numStep st b = none := by
  have hb : UInt8.ofNat b.toNat = b := by simp
  simpa only [hb] using blank_facts b.toNat b.toNat_lt (by rwa [hb])

theorem Blank.idle (h : Blank b) {r : Lex × List Token} (hr : idleStep b = some r) : r = (.idle, []) := by
  simpa [hr] using h.facts.1.1

theorem Blank.numStep (h : Blank b) (st : NumState) : numStep st b = none := h.facts.2 st (by cases st <;> simp)

def Lex.Lettered : Lex → Prop
  | .word left _ => ∀ c ∈ left, 97 ≤ c ∧ c ≤ 122
  | _ => True

instance : DecidablePred Lex.Lettered
  | .word left _ => inferInstanceAs (Decidable (∀ c ∈ left, _))
  | .idle => .isTrue trivial
  | .str .. => .isTrue trivial
  | .num .. => .isTrue trivial

theorem idle_lettered : ∀ n < 256, (idleStep (UInt8.ofNat n)).all (fun r => decide r.1.Lettered) = true := by decide +kernel

theorem idleStep_lettered {r : Lex × List Token} (h : idleStep b = some r) : r.1.Lettered := by
  have hb := idle_lettered b.toNat b.toNat_lt
  rw [UInt8.ofNat_toNat, h] at hb
  exact of_decide_eq_true hb

theorem lexStep_lettered {st : Lex} {r : Lex × List Token} (hl : st.Lettered) (h : lexStep st b = some r) : r.1.Lettered := by
  cases lexStep_cases h with
  | idle h => exact idleStep_lettered h
  | number _ _ hx =>
    have hl := idleStep_lettered hx
    exact hl
  | letter => exact fun d hd => hl d (List.mem_cons_of_mem _ hd)
  | _ => trivial

theorem lexRun_lettered {st : Lex} {x : Bytes} {r : Lex × List Token} (hl : st.Lettered) (h : lexRun st x = some r) : r.1.Lettered :=
  (lexRun_keeps (J := fun _ => True) (fun hl h => ⟨lexStep_lettered hl h, fun _ _ => trivial⟩) hl h).1

theorem finish_of_blank {st st' : Lex} {us vs : List Token} (hb : Blank b) (hl : st.Lettered) (hs : lexStep st b = some (st', us))
    (hf : st'.finish = some vs) : st.finish = some (us ++ vs) := by
  generalize hr : (st', us) = r at hs
  cases lexStep_cases hs with
  | idle h =>
    obtain rfl := hb.idle h
    obtain ⟨rfl, rfl⟩ := Prod.mk.inj hr
    simpa [Lex.finish] using hf
  | close h => exact absurd h hb.facts.1.2.1
  | str =>
    -- an open string stays open
    obtain ⟨rfl, -⟩ := Prod.mk.inj hr
    cases hf
  | num h =>
    rw [hb.numStep] at h
    cases h
  | number _ hfin h =>
    obtain rfl := hb.idle h
    obtain ⟨rfl, rfl⟩ := Prod.mk.inj hr
    have hvs : vs = [] := by simpa [Lex.finish] using hf.symm
    simp [Lex.finish, hfin, hvs]
  | word => exact absurd (hl b List.mem_cons_self) hb.facts.1.2.2
  | letter => exact absurd (hl b List.mem_cons_self) hb.facts.1.2.2

theorem tokens_of_blank_concat {x : Bytes} (hb : Blank b) (h : tokens (x ++ [b]) = some ts) : tokens x = some ts := by
  simp only [tokens, lexRun_append, Option.bind_eq_some_iff, Option.map_eq_some_iff] at h
  obtain ⟨r, ⟨q, hq, q', hq', rfl⟩, l, hl, rfl⟩ := h
  simp only [lexRun, Option.bind_eq_some_iff, Option.map_eq_some_iff] at hq'
  obtain ⟨⟨st, us⟩, hstep, w, hw, rfl⟩ := hq'
  obtain rfl := Option.some.inj hw
  have hidle : Lex.idle.Lettered := trivial
  have hf := finish_of_blank hb (lexRun_lettered hidle hq) hstep hl
  simp [tokens, hq, hf]

theorem tokens_of_blank_right {x r : Bytes} (hr : ∀ b ∈ r, Blank b) (h : tokens (x ++ r) = some ts) : tokens x = some ts := by
  induction r using List.reverseRecOn with
  | nil => simpa using h
  | append_singleton r b ih =>
    rw [← List.append_assoc] at h
    exact ih (fun c hc => hr c (List.mem_append_left _ hc)) (tokens_of_blank_concat (hr b (by simp)) h)

theorem tokens_of_blank_left {l x : Bytes} (hl : ∀ b ∈ l, Blank b) (h : tokens (l ++ x) = some ts) : tokens x = some ts := by
  induction l with
  | nil => exact h
  | cons b l ih =>
    refine ih (fun c hc => hl c (List.mem_cons_of_mem _ hc)) ?_
    have hb := hl b (List.mem_cons_self ..)
    simp only [tokens, List.cons_append, lexRun, lexStep, Option.bind_eq_some_iff, Option.map_eq_some_iff] at h
    obtain ⟨r, ⟨q, hq, q', hq', rfl⟩, l', hl', rfl⟩ := h
    obtain rfl := hb.idle hq
    simp [tokens, hq', hl']

theorem blank_of_space {s : Bytes} {r : Nat × Bytes} (hr : r ∈ Utf8.runes s) (hs : Utf8.isSpaceRune r.1 = true) :
    ∀ b ∈ r.2, Blank b := by
  induction s using Utf8.rune_induction with
  | nil => simp [Utf8.runes, Utf8.runesFrom] at hr
  | bad a t h hx ih =>
    rw [Utf8.runes_bad h] at hr
    rcases List.mem_cons.1 hr with rfl | hr
    · cases hs
    · exact ih hr
  | good c t hc ih =>
    rw [Utf8.runes_encodeRune_append hc] at hr
    rcases List.mem_cons.1 hr with rfl | hr
    · intro b hb
      rcases Nat.lt_or_ge c 0x80 with hlt | hge
      · have hsmall : ∀ c < 0x80, Utf8.isSpaceRune c = true → Blank (UInt8.ofNat c) := by decide
        rw [Utf8.encodeRune, if_pos hlt, List.mem_singleton] at hb
        exact hb ▸ hsmall c hlt hs
      · have hhigh := high_of_mem_encodeRune hge hc hb
        exact .inr (.inr (.inr (UInt8.le_iff_toNat_le.2 hhigh)))
    · exact ih hr

theorem tokens_trimSpace {s : Bytes} (h : tokens s = some ts) : tokens (Utf8.trimSpace s) = some ts := by
  let p : Nat × Bytes → Bool := fun r => Utf8.isSpaceRune r.1
  let rs := (Utf8.runes s).dropWhile p
  let mid := (rs.reverse.dropWhile p).reverse
  let tail := (rs.reverse.takeWhile p).reverse
  have hrs : rs = mid ++ tail := by
    rw [← List.reverse_append, List.takeWhile_append_dropWhile, List.reverse_reverse]
  have hs : s = ((Utf8.runes s).takeWhile p).flatMap Prod.snd ++ (mid.flatMap Prod.snd ++ tail.flatMap Prod.snd) := by
    rw [← List.flatMap_append, ← hrs, ← List.flatMap_append, List.takeWhile_append_dropWhile, Utf8.runes_flatten]
  have hblank : ∀ l : List (Nat × Bytes), (∀ r ∈ l, r ∈ Utf8.runes s ∧ p r = true) → ∀ b ∈ l.flatMap Prod.snd, Blank b := by
    intro l hl b hb
    obtain ⟨r, hr, hb⟩ := List.mem_flatMap.1 hb
    exact blank_of_space (hl r hr).1 (hl r hr).2 b hb
  rw [hs] at h
  refine tokens_of_blank_right (hblank tail fun r hr => ?_) (tokens_of_blank_left (hblank _ fun r hr => ?_) h)
  · have hr := List.mem_reverse.1 hr
    exact ⟨(List.dropWhile_sublist p).subset (List.mem_reverse.1 ((List.takeWhile_sublist p).subset hr)), List.mem_takeWhile_imp hr⟩
  · exact ⟨(List.takeWhile_sublist p).subset hr, List.mem_takeWhile_imp hr⟩

def Token.isStr : Token → Bool
  | .str _ => true
  | _ => false

def Lex.StrOK : Lex → Prop
  | .str st acc => strRun .plain acc.reverse = some st
  | .word _ tok => tok.isStr = false
  | _ => True

/-- The string tokens among `ts` are well-formed literals. -/
def StrToks (ts : List Token) : Prop := ∀ lit, Token.str lit ∈ ts → StrLit lit

instance : DecidablePred Lex.StrOK
  | .str st acc => inferInstanceAs (Decidable (strRun .plain acc.reverse = some st))
  | .idle => .isTrue trivial
  | .word _ tok => inferInstanceAs (Decidable (tok.isStr = false))
  | .num .. => .isTrue trivial

theorem idle_strOK : ∀ n < 256, (idleStep (UInt8.ofNat n)).all (fun r => decide r.1.StrOK && r.2.all (fun t => !t.isStr)) = true := by
  decide +kernel

theorem idleStep_strOK {r : Lex × List Token} (h : idleStep b = some r) : r.1.StrOK ∧ StrToks r.2 := by
  have hb := idle_strOK b.toNat b.toNat_lt
  rw [UInt8.ofNat_toNat, h, Option.all_some, Bool.and_eq_true, List.all_eq_true] at hb
  exact ⟨of_decide_eq_true hb.1, fun lit hl => by have := hb.2 _ hl; cases this⟩

theorem lexStep_strOK {st : Lex} {r : Lex × List Token} (hst : st.StrOK) (h : lexStep st b = some r) : r.1.StrOK ∧ StrToks r.2 := by
  have hnone : StrToks [] := fun _ h => by cases h
  cases lexStep_cases h with
  | idle h => exact idleStep_strOK h
  | close =>
    refine ⟨trivial, fun lit hl => ?_⟩
    obtain rfl := Token.str.inj (List.mem_singleton.1 hl)
    exact hst
  | @str st st' acc hne hx =>
    refine ⟨?_, hnone⟩
    have hrun : strRun st [b] = some st' := by rw [strRun, if_neg hne, hx]; rfl
    rw [Lex.StrOK, List.reverse_cons, strRun_append, show strRun .plain acc.reverse = some st from hst]
    exact hrun
  | num => exact ⟨trivial, hnone⟩
  | number _ _ hx =>
    obtain ⟨h1, h2⟩ := idleStep_strOK hx
    exact ⟨h1, fun lit hl => h2 lit (by simpa using hl)⟩
  | word =>
    refine ⟨trivial, fun lit hl => ?_⟩
    have hst : Token.isStr _ = false := hst
    rw [← List.mem_singleton.1 hl] at hst
    cases hst
  | letter => exact ⟨hst, hnone⟩

theorem lexRun_strOK {st : Lex} {x : Bytes} {r : Lex × List Token} (hst : st.StrOK) (h : lexRun st x = some r) : r.1.StrOK ∧ StrToks r.2 := by
  obtain ⟨hend, htoks⟩ := lexRun_keeps (I := Lex.StrOK) (J := fun t => ∀ lit, t = .str lit → StrLit lit) (fun hst h => by
    obtain ⟨hst', htoks⟩ := lexStep_strOK hst h
    exact ⟨hst', fun t ht lit hl => htoks lit (hl ▸ ht)⟩) hst h
  exact ⟨hend, fun lit hl => htoks _ hl lit rfl⟩

theorem strLit_of_tokens {s : Bytes} (h : tokens s = some ts) : StrToks ts := by
  obtain ⟨r, hr, h⟩ := Option.bind_eq_some_iff.1 h
  obtain ⟨l, hl, rfl⟩ := Option.map_eq_some_iff.1 h
  have hidle : Lex.idle.StrOK := trivial
  intro lit hm
  rcases List.mem_append.1 hm with hm | hm
  · exact (lexRun_strOK hidle hr).2 lit hm
  · cases hst : r.1 <;> simp only [hst, Lex.finish] at hl
    · obtain rfl := Option.some.inj hl; cases hm
    · cases hl
    · split_ifs at hl
      obtain rfl := Option.some.inj hl
      simp at hm
    · cases hl

theorem validString_encodeRune_append (c : Nat) (t : Bytes) : Utf8.validString (Utf8.encodeRune c ++ t) = Utf8.validString t := by
  have hscalar : ∀ {c : Nat}, Utf8.IsScalar c → Utf8.validString (Utf8.encodeRune c ++ t) = Utf8.validString t := by
    intro c hc
    rw [Utf8.validString, Utf8.runes_encodeRune_append hc, List.all_cons, Utf8.invalid_encodeRune]; rfl
  by_cases hc : Utf8.IsScalar c
  · exact hscalar hc
  · have he : Utf8.encodeRune c = Utf8.encodeRune Utf8.runeError := by
      have h1 : ¬ c < 0x80 := fun h => hc (.inl (by omega))
      have h2 : ¬ c < 0x800 := fun h => hc (.inl (by omega))
      rw [Utf8.encodeRune, if_neg h1, if_neg h2, if_pos hc]; rfl
    rw [he]; exact hscalar (by decide)

theorem validString_byte_cons {b : UInt8} (h : b.toNat < 0x80) (t : Bytes) : Utf8.validString (b :: t) = Utf8.validString t := by
  have he : Utf8.encodeRune b.toNat = [b] := by rw [Utf8.encodeRune, if_pos h, Utf8.ofNat_eq rfl]
  have hv := validString_encodeRune_append b.toNat t
  rwa [he] at hv

theorem strRun_hex {n : Nat} {t : Bytes} (h : strRun (.hex (n + 1)) t = some .plain) :
    ∃ a r, t = a :: r ∧ isHex a = true ∧ strRun (if n = 0 then .plain else .hex n) r = some .plain := by
  cases t with
  | nil => cases h
  | cons a r =>
    simp only [strRun, strStep, reduceCtorEq, false_and, if_false] at h
    split_ifs at h with hx hn
    · obtain rfl : n = 0 := by omega
      exact ⟨a, r, rfl, hx, h⟩
    · refine ⟨a, r, rfl, hx, ?_⟩
      rw [if_neg (by omega)]
      exact h
    · cases h

structure Hex4 (a b c d : UInt8) : Prop where
  fst : isHex a = true
  snd : isHex b = true
  trd : isHex c = true
  fth : isHex d = true

theorem strRun_hex4 {t : Bytes} (h : strRun (.hex 4) t = some .plain) :
    ∃ a b c d r, t = a :: b :: c :: d :: r ∧ Hex4 a b c d ∧ StrLit r := by
  obtain ⟨a, t₁, rfl, ha, h₁⟩ := strRun_hex h
  obtain ⟨b, t₂, rfl, hb, h₂⟩ := strRun_hex h₁
  obtain ⟨c, t₃, rfl, hc, h₃⟩ := strRun_hex h₂
  obtain ⟨d, t₄, rfl, hd, h₄⟩ := strRun_hex h₃
  exact ⟨a, b, c, d, t₄, rfl, ⟨ha, hb, hc, hd⟩, h₄⟩

theorem lowSurrogate_some {x v : Nat} {r : Bytes} (h : lowSurrogate x r = some v) :
    ∃ a b c d r', r = 92 :: 117 :: a :: b :: c :: d :: r' := by
  unfold lowSurrogate at h
  split at h
  · exact ⟨_, _, _, _, _, rfl⟩
  · cases h

theorem unescape_lt : ∀ n < 256, isEscape (UInt8.ofNat n) = true → (unescape (UInt8.ofNat n)).toNat < 0x80 := by decide +kernel

/-- How a literal spells its content: byte by byte, by escapes, by the halves of a surrogate pair, by the bytes of a rune;
a byte that belongs to none, and a half without the other, stand for the replacement character. -/
inductive Spells : Bytes → Bytes → Prop
  | nil : Spells [] []
  | plain {b : UInt8} {t s : Bytes} (hlt : b.toNat < 0x80) (hge : 32 ≤ b) (hquote : b ≠ 34) (hslash : b ≠ 92) (h : Spells t s) :
      Spells (b :: t) (b :: s)
  | esc {c : UInt8} {t s : Bytes} (hc : isEscape c = true) (h : Spells t s) : Spells (92 :: c :: t) (unescape c :: s)
  | code {a b c d : UInt8} {t s : Bytes} (hx : Hex4 a b c d) (hu : ¬(0xD800 ≤ hex4 a b c d ∧ hex4 a b c d < 0xE000)) (h : Spells t s) :
      Spells (92 :: 117 :: a :: b :: c :: d :: t) (Utf8.encodeRune (hex4 a b c d) ++ s)
  | pair {a b c d a' b' c' d' : UInt8} {v : Nat} {t s : Bytes} (hx : Hex4 a b c d) (hx' : Hex4 a' b' c' d')
      (hu : 0xD800 ≤ hex4 a b c d ∧ hex4 a b c d < 0xE000)
      (hv : lowSurrogate (hex4 a b c d) (92 :: 117 :: a' :: b' :: c' :: d' :: t) = some v) (h : Spells t s) :
      Spells (92 :: 117 :: a :: b :: c :: d :: 92 :: 117 :: a' :: b' :: c' :: d' :: t) (Utf8.encodeRune v ++ s)
  | lone {a b c d : UInt8} {t s : Bytes} (hx : Hex4 a b c d) (hu : 0xD800 ≤ hex4 a b c d ∧ hex4 a b c d < 0xE000)
      (hv : lowSurrogate (hex4 a b c d) t = none) (h : Spells t s) :
      Spells (92 :: 117 :: a :: b :: c :: d :: t) (Utf8.encodeRune Utf8.runeError ++ s)
  | rune {c : Nat} {t s : Bytes} (hc : Utf8.IsScalar c) (hge : 0x80 ≤ c) (h : Spells t s) :
      Spells (Utf8.encodeRune c ++ t) (Utf8.encodeRune c ++ s)
  | bad {b : UInt8} {t s : Bytes} (hd : Utf8.decodeRune (b :: t) = (Utf8.runeError, 1)) (hge : 0x80 ≤ b.toNat) (h : Spells t s) :
      Spells (b :: t) (Utf8.encodeRune Utf8.runeError ++ s)

theorem StrLit.spells {lit : Bytes} (h : StrLit lit) : ∃ s, Spells lit s := by
  induction hn : lit.length using Nat.strongRecOn generalizing lit with
  | ind n ih =>
    have hrest : ∀ r : Bytes, r.length < n → StrLit r → ∃ s, Spells r s := fun r hr hs => ih r.length hr hs rfl
    rcases lit with _ | ⟨b, t⟩
    · exact ⟨[], .nil⟩
    rw [StrLit, strRun] at h
    split_ifs at h with hq
    obtain ⟨st, hst, ht⟩ := Option.bind_eq_some_iff.1 h
    have hquote : b ≠ 34 := fun hb => hq ⟨rfl, hb⟩
    by_cases h92 : b = 92
    · subst h92
      obtain rfl : StrState.esc = st := by simpa [strStep] using hst
      rcases t with _ | ⟨c, r⟩
      · cases ht
      by_cases h117 : c = 117
      · subst h117
        have h : strRun (.hex 4) r = some .plain := by simpa [strRun, strStep] using ht
        obtain ⟨a, b, c, d, r, rfl, hx, hr⟩ := strRun_hex4 h
        by_cases hu : 0xD800 ≤ hex4 a b c d ∧ hex4 a b c d < 0xE000
        · cases hv : lowSurrogate (hex4 a b c d) r with
          | none =>
            obtain ⟨s, hs⟩ := hrest r (by simp at hn; omega) hr
            exact ⟨_, .lone hx hu hv hs⟩
          | some v =>
            obtain ⟨a', b', c', d', r', rfl⟩ := lowSurrogate_some hv
            have hr' : strRun (.hex 4) (a' :: b' :: c' :: d' :: r') = some .plain := by simpa [StrLit, strRun, strStep] using hr
            obtain ⟨_, _, _, _, _, he, hx', hr''⟩ := strRun_hex4 hr'
            cases he
            obtain ⟨s, hs⟩ := hrest r' (by simp at hn; omega) hr''
            exact ⟨_, .pair hx hx' hu hv hs⟩
        · obtain ⟨s, hs⟩ := hrest r (by simp at hn; omega) hr
          exact ⟨_, .code hx hu hs⟩
      · have h : isEscape c = true ∧ StrLit r := by
          simp only [strRun, strStep, reduceCtorEq, false_and, if_false, if_neg h117] at ht
          split_ifs at ht with hc
          · exact ⟨hc, ht⟩
          · cases ht
        obtain ⟨s, hs⟩ := hrest r (by simp at hn; omega) h.2
        exact ⟨_, .esc h.1 hs⟩
    · simp only [strStep, if_neg h92] at hst
      split_ifs at hst with h32
      obtain rfl := Option.some.inj hst
      rcases Utf8.decodeRune_cases b t with ⟨hd, hge⟩ | ⟨c, x, hc, hx⟩
      · obtain ⟨s, hs⟩ := hrest t (by simp at hn; omega) ht
        exact ⟨_, .bad hd hge hs⟩
      by_cases hge : 0x80 ≤ c
      · have hlit : StrLit (Utf8.encodeRune c) := .of_high fun b hb => high_of_mem_encodeRune hge hc hb
        have hrest' : StrLit x := by
          have hall : strRun .plain (Utf8.encodeRune c ++ x) = some .plain := by
            rw [← hx, strRun, if_neg hq, strStep, if_neg h92, if_neg h32]
            exact ht
          rwa [strRun_append, hlit] at hall
        have hlen := congrArg List.length hx
        have hpos := List.length_pos_iff.2 (Utf8.encodeRune_ne_nil c)
        rw [List.length_append] at hlen
        obtain ⟨s, hs⟩ := hrest x (by omega) hrest'
        rw [hx]
        exact ⟨_, .rune hc hge hs⟩
      · rw [Utf8.encodeRune, if_pos (by omega)] at hx
        obtain ⟨rfl, rfl⟩ := List.cons.inj hx
        obtain ⟨s, hs⟩ := hrest _ (by simp at hn; omega) ht
        exact ⟨_, .plain (by rw [Utf8.toNat_ofNat (by omega)]; omega) (by simpa using h32) hquote h92 hs⟩

theorem unquote_esc {c : UInt8} (hc : isEscape c = true) (t : Bytes) : unquote (92 :: c :: t) = unescape c :: unquote t := by
  have h117 : c ≠ 117 := by rintro rfl; cases hc
  have hstep : unquoteStep 92 (c :: t) = ([unescape c], 1) := by
    simp only [unquoteStep, if_true]
    split
    · rename_i heq; exact absurd (List.cons.inj heq).1 h117
    · rename_i heq; rw [(List.cons.inj heq).1]
    · rename_i heq; cases heq
  rw [unquote, unquoteFrom, hstep]
  rfl

theorem Spells.unquote_eq {lit s : Bytes} (h : Spells lit s) : unquote lit = s := by
  induction h with
  | nil => rfl
  | @plain b t s hlt _ _ hslash _ ih =>
    rw [unquote, unquoteFrom, ← ih]
    simp [unquoteStep, hslash, hlt, unquote]
  | esc hc _ ih => rw [unquote_esc hc, ih]
  | @code a b c d t s _ hu _ ih =>
    rw [unquote, unquoteFrom, ← ih]
    simp [unquoteStep, hu, unquote, unquoteFrom]
  | @pair a b c d a' b' c' d' v t s _ _ hu hv _ ih =>
    rw [unquote, unquoteFrom, ← ih]
    simp [unquoteStep, hu, hv, unquote, unquoteFrom]
  | @lone a b c d t s _ hu hv _ ih =>
    rw [unquote, unquoteFrom, ← ih]
    simp [unquoteStep, hu, hv, unquote, unquoteFrom]
  | rune hc hge _ ih => rw [unquote_encodeRune hc hge, ih]
  | @bad b t s hd hge _ ih =>
    have hslash : b ≠ 92 := by rintro rfl; simp at hge
    rw [unquote, unquoteFrom, ← ih]
    simp [unquoteStep, hslash, Nat.not_lt.2 hge, hd, unquote]

theorem spells_unquote {lit : Bytes} (h : StrLit lit) : Spells lit (unquote lit) := by
  obtain ⟨s, hs⟩ := h.spells
  rwa [hs.unquote_eq]

theorem Spells.validString {lit s : Bytes} (h : Spells lit s) : Utf8.validString s = true := by
  induction h with
  | nil => rfl
  | plain hlt _ _ _ _ ih => rw [validString_byte_cons hlt, ih]
  | @esc c t s hc _ ih =>
    have hlt := unescape_lt c.toNat c.toNat_lt
    rw [UInt8.ofNat_toNat] at hlt
    rw [validString_byte_cons (hlt hc), ih]
  | _ => rw [validString_encodeRune_append]; assumption

theorem validString_unquote {lit : Bytes} (h : StrLit lit) : Utf8.validString (unquote lit) = true := (spells_unquote h).validString

theorem parse_congr {s s' : Bytes} (h : tokens s = tokens s') : parse s = parse s' := by rw [parse, parse, h]

theorem parse_trimSpace {s : Bytes} {v : Json} (h : parse s = some v) : parse (Utf8.trimSpace s) = some v := by
  have ht := parse_sound h
  rw [← h]
  exact parse_congr ((tokens_trimSpace ht).trans ht.symm)

def Lex.Midway : Lex → Prop
  | .idle => False
  | .word _ t => t ≠ .lbrace
  | _ => True

instance : DecidablePred Lex.Midway
  | .idle => .isFalse id
  | .word _ t => inferInstanceAs (Decidable (t ≠ .lbrace))
  | .str _ _ => .isTrue trivial
  | .num _ _ => .isTrue trivial

theorem idle_midway : ∀ n < 256, (idleStep (UInt8.ofNat n)).all (fun r =>
    decide (n = 123) || decide (r.2 = [] ∧ r.1.Midway) || decide (r.2 = [] ∧ isSpace (UInt8.ofNat n)) ||
      (r.2.head?.any fun t => decide (t ≠ .lbrace))) = true := by decide +kernel

def NoBrace (ts : List Token) : Prop := ∃ t us, ts = t :: us ∧ t ≠ .lbrace

theorem lexStep_midway {st : Lex} {b : UInt8} {r : Lex × List Token} (hm : st.Midway) (h : lexStep st b = some r) :
    r.2 = [] ∧ r.1.Midway ∨ NoBrace r.2 := by
  cases lexStep_cases h with
  | idle => exact hm.elim
  | close => exact .inr ⟨_, _, rfl, by simp⟩
  | str => exact .inl ⟨rfl, trivial⟩
  | num => exact .inl ⟨rfl, trivial⟩
  | number => exact .inr ⟨_, _, rfl, by simp⟩
  | word => exact .inr ⟨_, _, rfl, hm⟩
  | letter => exact .inl ⟨rfl, hm⟩

theorem lexRun_midway {st : Lex} {x : Bytes} {r : Lex × List Token} {l : List Token} (hm : st.Midway) (h : lexRun st x = some r)
    (hf : r.1.finish = some l) : NoBrace (r.2 ++ l) := by
  induction x generalizing st r with
  | nil =>
    obtain rfl := Option.some.inj h
    cases st with
    | idle => exact hm.elim
    | num st acc =>
      simp only [Lex.finish] at hf
      split_ifs at hf
      obtain rfl := Option.some.inj hf
      exact ⟨_, _, rfl, by simp⟩
    | _ => cases hf
  | cons b x ih =>
    simp only [lexRun, Option.bind_eq_some_iff, Option.map_eq_some_iff] at h
    obtain ⟨p, hp, q, hq, rfl⟩ := h
    rcases lexStep_midway hm hp with ⟨hnil, hm'⟩ | ⟨t, us, hts, hne⟩
    · simpa [hnil] using ih hm' hq hf
    · exact ⟨t, us ++ q.2 ++ l, by simp [hts], hne⟩

theorem exists_brace {s : Bytes} {ts : List Token} (h : tokens s = some (.lbrace :: ts)) :
    ∃ l r, s = l ++ 123 :: r ∧ ∀ b ∈ l, isSpace b = true := by
  induction s with
  | nil => cases h
  | cons b t ih =>
    have hb : UInt8.ofNat b.toNat = b := by simp
    have h₀ := h
    simp only [tokens, lexRun, Option.bind_eq_some_iff, Option.map_eq_some_iff] at h
    obtain ⟨p, ⟨q, hq, q', hq', rfl⟩, l, hl, hts⟩ := h
    have hq : idleStep b = some q := hq
    have hcases := idle_midway b.toNat b.toNat_lt
    rw [hb, hq, Option.all_some] at hcases
    simp only [Bool.or_eq_true, decide_eq_true_eq] at hcases
    rcases hcases with ((h123 | ⟨hnil, hm⟩) | ⟨-, hsp⟩) | hfirst
    · refine ⟨[], t, ?_, fun _ h => absurd h List.not_mem_nil⟩
      rw [← hb, h123]
      rfl
    · obtain ⟨t', us, hne, hbr⟩ := lexRun_midway hm hq' hl
      rw [hnil, List.nil_append] at hts
      exact absurd (List.cons.inj (hts.symm.trans hne)).1.symm hbr
    · have hblank : ∀ c ∈ [b], Blank c := fun c hc => by
        rw [List.mem_singleton.1 hc]
        exact .inl hsp
      obtain ⟨l, r, rfl, hl⟩ := ih (tokens_of_blank_left hblank h₀)
      refine ⟨b :: l, r, rfl, fun c hc => ?_⟩
      rcases List.mem_cons.1 hc with rfl | hc
      · exact hsp
      · exact hl c hc
    · cases hq2 : q.2 with
      | nil => rw [hq2] at hfirst; cases hfirst
      | cons t' us =>
        rw [hq2] at hfirst hts
        exact absurd (List.cons.inj hts).1 (by simpa using hfirst)

theorem isSpace_ascii {b : UInt8} (h : isSpace b = true) : b.toNat < 0x80 ∧ Utf8.isSpaceRune b.toNat = true := by
  simp only [isSpace, Bool.or_eq_true, beq_iff_eq] at h
  rcases h with ((rfl | rfl) | rfl) | rfl <;> decide

theorem head_of_brace {l r : Bytes} (h : ∀ b ∈ l, isSpace b = true) : (Utf8.trimSpace (l ++ 123 :: r)).head? = some 123 := by
  induction l with
  | nil => exact Utf8.head?_trimSpace_cons r (by decide) (by decide)
  | cons b l ih =>
    obtain ⟨hlt, hs⟩ := isSpace_ascii (h b (List.mem_cons_self ..))
    rw [List.cons_append, Utf8.trimSpace_cons _ hlt hs]
    exact ih fun c hc => h c (List.mem_cons_of_mem _ hc)

theorem head_of_object {s : Bytes} {ts : List Token} (h : tokens s = some (.lbrace :: ts)) : (Utf8.trimSpace s).head? = some 123 := by
  obtain ⟨l, r, rfl, hl⟩ := exists_brace h
  exact head_of_brace hl

theorem eq_of_prefix {pre suf : Bytes} {ms : List (Bytes × Json)} {v : Json} (hp : parse pre = some (.obj ms))
    (h : tokens (pre ++ suf) = some (toks v)) : v = .obj ms := by
  obtain ⟨⟨st, us⟩, hrun, hfin⟩ := Option.bind_eq_some_iff.1 (parse_sound hp)
  obtain ⟨l, hl, hts⟩ := Option.map_eq_some_iff.1 hfin
  simp only at hl hts
  have hlast : (toks (.obj ms)).getLast? = some .rbrace := by
    rw [toks, List.getLast?_append]
    rfl
  have hidle : st = .idle ∧ l = [] := by
    cases st with
    | idle => exact ⟨rfl, (Option.some.inj hl).symm⟩
    | num st acc =>
      simp only [Lex.finish] at hl
      split_ifs at hl
      obtain rfl := Option.some.inj hl
      rw [← hts, List.getLast?_append] at hlast
      cases hlast
    | _ => cases hl
  obtain ⟨rfl, rfl⟩ := hidle
  rw [List.append_nil] at hts
  rw [tokens_append hrun, hts] at h
  obtain ⟨vs, -, hvs⟩ := Option.map_eq_some_iff.1 h
  have hvs : toks (.obj ms) ++ vs = toks v ++ [] := by simpa using hvs
  exact (toks_append_inj _ _ hvs).1.symm

theorem runes_repair (s : Bytes) : (Utf8.runes (repair s)).map Prod.fst = (Utf8.runes s).map Prod.fst := by
  induction s using Utf8.rune_induction with
  | nil => rfl
  | bad a t h hx ih =>
    have hr : repair (a :: t) = Utf8.encodeRune Utf8.runeError ++ repair t := by rw [repair, Utf8.runes_bad h]; rfl
    rw [hr, Utf8.runes_encodeRune_append (by decide), Utf8.runes_bad h, List.map_cons, List.map_cons, ih]
  | good c t hc ih =>
    rw [repair_encodeRune hc, Utf8.runes_encodeRune_append hc, Utf8.runes_encodeRune_append hc, List.map_cons, List.map_cons, ih]

end Json
