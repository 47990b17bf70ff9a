import Privahub.Http.BodyValue

/-!
# Adding spellings of keys

`expandKeys` and `camelCaseResponseKeys` (camelcase.go) walk a decoded value in the same way and differ in
the spellings they add of a key: `addSpellings`. `OnlyAdds v w` is what both are meant for: `w` has all that
`v` has, and besides only members under another spelling of a key of `v`. What is read back of the output is
related to the input so exactly if no number of it has been respelled (`onlyAdds_iff`).
-/

namespace Http

open Json

section

variable (spell : Bytes → List Bytes)

mutual

/-- `w` is `v` with members added under the spellings of the keys there. -/
def OnlyAdds : Json → Json → Prop
  | .arr vs, w => ∃ ws, w = .arr ws ∧ OnlyAddsItems vs ws
  | .obj ms, w => ∃ ns, w = .obj ns ∧ Kept ms ns ∧ ∀ n ∈ ns, SpelledIn ms n
  | v, w => w = v
termination_by structural v => v

def OnlyAddsItems : List Json → List Json → Prop
  | [], ws => ws = []
  | v :: vs, ws => ∃ w ws', ws = w :: ws' ∧ OnlyAdds v w ∧ OnlyAddsItems vs ws'
termination_by structural vs => vs

def Kept : List (Bytes × Json) → List (Bytes × Json) → Prop
  | [], _ => True
  | (k, v) :: ms, ns => (∃ n ∈ ns, n.1 = k ∧ OnlyAdds v n.2) ∧ Kept ms ns
termination_by structural ms => ms

def SpelledIn : List (Bytes × Json) → Bytes × Json → Prop
  | [], _ => False
  | (k, v) :: ms, n => (n.1 = k ∨ n.1 ∈ spell k) ∧ OnlyAdds v n.2 ∨ SpelledIn ms n
termination_by structural ms => ms

end

variable (o : MapOrder)

mutual

def addSpellings : Json → Json
  | .arr items => .arr (addSpellingsItems items)
  | .obj ms =>
    let t := addSpellingsMembers ms
    .obj (((o.order t).flatMap fun e => (spell e.1).map fun k => (k, e.2)).foldl addTwin t)
  | v => v

def addSpellingsItems : List Json → List Json
  | [] => []
  | v :: vs => addSpellings v :: addSpellingsItems vs

def addSpellingsMembers : List (Bytes × Json) → List (Bytes × Json)
  | [] => []
  | (k, v) :: ms => (k, addSpellings v) :: addSpellingsMembers ms

end

end

variable {spell : Bytes → List Bytes} {o : MapOrder} {u : CaseTables} {vs ws : List Json} {ms ns : List (Bytes × Json)} {n : Bytes × Json}
  {v : Json} {k : Bytes}

theorem onlyAddsItems_iff : OnlyAddsItems spell vs ws ↔ List.Forall₂ (OnlyAdds spell) vs ws := by
  induction vs generalizing ws with
  | nil => simp [OnlyAddsItems]
  | cons v vs ih =>
    simp only [OnlyAddsItems, List.forall₂_cons_left_iff, ih]
    constructor
    · rintro ⟨w, ws', rfl, hv, hvs⟩
      exact ⟨w, ws', hv, hvs, rfl⟩
    · rintro ⟨w, ws', hv, hvs, rfl⟩
      exact ⟨w, ws', rfl, hv, hvs⟩

theorem keptMembers_iff : Kept spell ms ns ↔ ∀ m ∈ ms, ∃ n ∈ ns, n.1 = m.1 ∧ OnlyAdds spell m.2 n.2 := by
  induction ms with
  | nil => simp [Kept]
  | cons m ms ih => rw [Kept, ih, List.forall_mem_cons]

theorem spelledIn_iff : SpelledIn spell ms n ↔ ∃ m ∈ ms, (n.1 = m.1 ∨ n.1 ∈ spell m.1) ∧ OnlyAdds spell m.2 n.2 := by
  induction ms with
  | nil => simp [SpelledIn]
  | cons m ms ih => rw [SpelledIn, ih, List.exists_mem_cons_iff]

theorem onlyAdds_refl (v : Json) : OnlyAdds spell v v := by
  induction v using tree_induction with
  | null | bool | num | str => exact rfl
  | arr vs ih => exact ⟨vs, rfl, onlyAddsItems_iff.2 (List.forall₂_same.2 ih)⟩
  | obj ms ih => exact ⟨ms, rfl, keptMembers_iff.2 fun m hm => ⟨m, hm, rfl, ih m hm⟩, fun n hn => spelledIn_iff.2 ⟨n, hn, .inl rfl, ih n hn⟩⟩

theorem addSpellingsItems_eq (vs : List Json) : addSpellingsItems spell o vs = vs.map (addSpellings spell o) := by
  induction vs with
  | nil => rfl
  | cons v vs ih => rw [addSpellingsItems, ih, List.map_cons]

theorem addSpellingsMembers_eq (ms : List (Bytes × Json)) :
    addSpellingsMembers spell o ms = ms.map fun m => (m.1, addSpellings spell o m.2) := by
  induction ms with
  | nil => rfl
  | cons m ms ih => rw [addSpellingsMembers, ih, List.map_cons]

theorem mem_of_mem_foldl_addTwin {l t : List (Bytes × Json)} {m : Bytes × Json} (h : m ∈ l.foldl addTwin t) : m ∈ t ∨ m ∈ l := by
  induction l generalizing t with
  | nil => exact .inl h
  | cons e l ih =>
    rcases ih h with hm | hm
    · unfold addTwin at hm
      split_ifs at hm
      · exact .inl hm
      · rcases List.mem_append.1 hm with hm | hm
        · exact .inl hm
        · exact .inr (List.mem_singleton.1 hm ▸ List.mem_cons_self ..)
    · exact .inr (List.mem_cons_of_mem _ hm)

theorem mem_foldl_addTwin {l t : List (Bytes × Json)} {m : Bytes × Json} (h : m ∈ t) : m ∈ l.foldl addTwin t := by
  induction l generalizing t with
  | nil => exact h
  | cons e l ih =>
    refine ih ?_
    unfold addTwin
    split_ifs
    · exact h
    · exact List.mem_append_left _ h

theorem nodup_foldl_addTwin {l t : List (Bytes × Json)} (h : (t.map Prod.fst).Nodup) : ((l.foldl addTwin t).map Prod.fst).Nodup := by
  induction l generalizing t with
  | nil => exact h
  | cons e l ih =>
    refine ih ?_
    unfold addTwin
    split_ifs with hany
    · exact h
    · rw [List.map_append]
      refine h.append (by simp) fun k hk he => hany ?_
      obtain ⟨x, hx, rfl⟩ := List.mem_map.1 hk
      exact List.any_eq_true.2 ⟨x, hx, by simpa using he⟩

def withSpellings (spell : Bytes → List Bytes) (o : MapOrder) (ms : List (Bytes × Json)) : List (Bytes × Json) :=
  ((o.order (addSpellingsMembers spell o ms)).flatMap fun e => (spell e.1).map fun k => (k, e.2)).foldl addTwin (addSpellingsMembers spell o ms)

theorem mem_withSpellings {m : Bytes × Json} (hm : m ∈ ms) : (m.1, addSpellings spell o m.2) ∈ withSpellings spell o ms :=
  mem_foldl_addTwin (by rw [addSpellingsMembers_eq]; exact List.mem_map_of_mem hm)

theorem of_mem_withSpellings (h : n ∈ withSpellings spell o ms) :
    ∃ m ∈ ms, (n.1 = m.1 ∨ n.1 ∈ spell m.1) ∧ n.2 = addSpellings spell o m.2 := by
  rcases mem_of_mem_foldl_addTwin h with hn | hn
  · rw [addSpellingsMembers_eq] at hn
    obtain ⟨m, hm, rfl⟩ := List.mem_map.1 hn
    exact ⟨m, hm, .inl rfl, rfl⟩
  · obtain ⟨e, he, hn⟩ := List.mem_flatMap.1 hn
    obtain ⟨k, hk, rfl⟩ := List.mem_map.1 hn
    have he := (o.perm _).mem_iff.1 he
    rw [addSpellingsMembers_eq] at he
    obtain ⟨m, hm, rfl⟩ := List.mem_map.1 he
    exact ⟨m, hm, .inr hk, rfl⟩

theorem nodup_withSpellings (h : (ms.map Prod.fst).Nodup) : ((withSpellings spell o ms).map Prod.fst).Nodup := by
  refine nodup_foldl_addTwin ?_
  rw [addSpellingsMembers_eq, List.map_map]
  exact h

theorem numbers_addSpellings (v : Json) : ∀ lit ∈ numbers (addSpellings spell o v), lit ∈ numbers v := by
  induction v using tree_induction with
  | null | bool | num | str => exact fun _ h => h
  | arr vs ih =>
    intro lit h
    rw [addSpellings, addSpellingsItems_eq] at h
    obtain ⟨w, hw, hl⟩ := mem_numbers_arr.1 h
    obtain ⟨v, hv, rfl⟩ := List.mem_map.1 hw
    exact mem_numbers_arr.2 ⟨v, hv, ih v hv lit hl⟩
  | obj ms ih =>
    intro lit h
    obtain ⟨n, hn, hl⟩ := mem_numbers_obj.1 h
    obtain ⟨m, hm, -, hv⟩ := of_mem_withSpellings hn
    rw [hv] at hl
    exact mem_numbers_obj.2 ⟨m, hm, ih m hm lit hl⟩

def Spelling (spell : Bytes → List Bytes) : Prop := ∀ k, Utf8.validString k = true → ∀ k' ∈ spell k, Utf8.validString k' = true

theorem clean_addSpellings (hs : Spelling spell) (v : Json) (h : Clean v) : Clean (addSpellings spell o v) := by
  induction v using tree_induction with
  | null | bool | num | str => exact h
  | arr vs ih =>
    rw [addSpellings, addSpellingsItems_eq]
    refine clean_arr.2 fun w hw => ?_
    obtain ⟨v, hv, rfl⟩ := List.mem_map.1 hw
    exact ih v hv (clean_arr.1 h v hv)
  | obj ms ih =>
    obtain ⟨hnodup, hm⟩ := clean_obj.1 h
    refine clean_obj.2 ⟨nodup_withSpellings hnodup, fun n hn => ?_⟩
    obtain ⟨m, hmem, hk, hv⟩ := of_mem_withSpellings hn
    refine ⟨?_, hv ▸ ih m hmem (hm m hmem).2⟩
    rcases hk with hk | hk
    · rw [hk, (hm m hmem).1]
    · exact hs m.1 (hm m hmem).1 n.1 hk

/-- The value that is read back of what is written of `v` with its numbers respelled and spellings added. -/
def readBack (spell : Bytes → List Bytes) (o : MapOrder) (f : Bytes → Bytes) (v : Json) : Json :=
  content (encode (addSpellings spell o (respell f v)))

variable {f : Bytes → Bytes}

theorem readBack_arr (vs : List Json) : readBack spell o f (.arr vs) = .arr (vs.map (readBack spell o f)) := by
  simp only [readBack, respell, respellItems_eq, addSpellings, addSpellingsItems_eq, encode, encodeItems_eq, content, contentItems_eq,
    List.map_map]
  rfl

theorem readBack_obj (hs : Spelling spell) (h : Clean (.obj ms)) : ∃ ns, readBack spell o f (.obj ms) = .obj ns ∧ (ns.map Prod.fst).Nodup ∧
    (∀ m ∈ ms, (m.1, readBack spell o f m.2) ∈ ns) ∧
    ∀ n ∈ ns, ∃ m ∈ ms, (n.1 = m.1 ∨ n.1 ∈ spell m.1) ∧ n.2 = readBack spell o f m.2 := by
  have hclean := clean_addSpellings (o := o) hs _ (clean_respell (f := f) h)
  obtain ⟨ns, hns, hperm⟩ := content_encode_obj hclean
  have hmem : ∀ m ∈ ms, (m.1, respell f m.2) ∈ respellMembers f ms := fun m hm => by
    rw [respellMembers_eq]
    exact List.mem_map_of_mem (f := fun m => (m.1, respell f m.2)) hm
  refine ⟨ns, hns, ?_, fun m hm => ?_, fun n hn => ?_⟩
  · rw [(hperm.map _).nodup_iff, List.map_map]
    exact (clean_obj.1 hclean).1
  · exact hperm.mem_iff.2 (List.mem_map_of_mem (f := fun m => (m.1, content (encode m.2))) (mem_withSpellings (hmem m hm)))
  · obtain ⟨x, hx, rfl⟩ := List.mem_map.1 (hperm.mem_iff.1 hn)
    obtain ⟨y, hy, hk, hv⟩ := of_mem_withSpellings hx
    rw [respellMembers_eq] at hy
    obtain ⟨m, hm, rfl⟩ := List.mem_map.1 hy
    exact ⟨m, hm, hk, by rw [hv]; rfl⟩

theorem onlyAdds_iff (hs : Spelling spell) (v : Json) (h : Clean v) :
    OnlyAdds spell v (readBack spell o f v) ↔ ∀ lit ∈ numbers v, f lit = lit := by
  induction v using tree_induction with
  | null | bool => exact ⟨fun _ _ h => absurd h List.not_mem_nil, fun _ => rfl⟩
  | num lit =>
    have hnum : readBack spell o f (.num lit) = .num (f lit) := rfl
    rw [hnum]
    simp [OnlyAdds, numbers]
  | str s =>
    have hstr : readBack spell o f (.str s) = .str s := congrArg Json.str ((unquote_escape s).trans (repair_eq_self h))
    rw [hstr]
    exact ⟨fun _ _ h => absurd h List.not_mem_nil, fun _ => rfl⟩
  | arr vs ih =>
    have hvs : List.Forall₂ (OnlyAdds spell) vs (vs.map (readBack spell o f)) ↔ ∀ v ∈ vs, OnlyAdds spell v (readBack spell o f v) := by
      rw [List.forall₂_map_right_iff, List.forall₂_same]
    rw [readBack_arr]
    constructor
    · rintro ⟨ws, hws, hadds⟩ lit hl
      obtain rfl := Json.arr.inj hws
      obtain ⟨v, hv, hl⟩ := mem_numbers_arr.1 hl
      exact (ih v hv (clean_arr.1 h v hv)).1 (hvs.1 (onlyAddsItems_iff.1 hadds) v hv) lit hl
    · intro hlit
      refine ⟨_, rfl, onlyAddsItems_iff.2 (hvs.2 fun v hv => (ih v hv (clean_arr.1 h v hv)).2 fun lit hl => ?_)⟩
      exact hlit lit (mem_numbers_arr.2 ⟨v, hv, hl⟩)
  | obj ms ih =>
    obtain ⟨ns, hns, hnodup, hmem, hof⟩ := readBack_obj (o := o) (f := f) hs h
    have ih := fun m hm => ih m hm ((clean_obj.1 h).2 m hm).2
    rw [hns]
    constructor
    · rintro ⟨ns', hns', hkept, -⟩ lit hl
      obtain rfl := Json.obj.inj hns'
      obtain ⟨m, hm, hl⟩ := mem_numbers_obj.1 hl
      obtain ⟨n, hn, hk, hadds⟩ := keptMembers_iff.1 hkept m hm
      -- the key is there once
      obtain rfl : n = (m.1, readBack spell o f m.2) := List.inj_on_of_nodup_map hnodup hn (hmem m hm) hk
      exact (ih m hm).1 hadds lit hl
    · intro hlit
      have hadds : ∀ m ∈ ms, OnlyAdds spell m.2 (readBack spell o f m.2) := fun m hm =>
        (ih m hm).2 fun lit hl => hlit lit (mem_numbers_obj.2 ⟨m, hm, hl⟩)
      refine ⟨ns, rfl, keptMembers_iff.2 fun m hm => ⟨_, hmem m hm, rfl, hadds m hm⟩, fun n hn => spelledIn_iff.2 ?_⟩
      obtain ⟨m, hm, hk, hv⟩ := hof n hn
      exact ⟨m, hm, hk, hv ▸ hadds m hm⟩

/-- The twins that `expandKeys` adds of a key. -/
def twinKeys (u : CaseTables) (k : Bytes) : List Bytes :=
  (if toSnakeCase u k ≠ k ∧ CanonicalJSONKey u (toSnakeCase u k) = CanonicalJSONKey u k then [toSnakeCase u k] else []) ++
    if toCamelCase u k ≠ k ∧ CanonicalJSONKey u (toCamelCase u k) = CanonicalJSONKey u k then [toCamelCase u k] else []

/-- The twin that `camelCaseResponseKeys` adds of a key. -/
def camelKey (u : CaseTables) (k : Bytes) : List Bytes := if toCamelCase u k ≠ k then [toCamelCase u k] else []

def camelCaseResponseKeys (u : CaseTables) (o : MapOrder) (v : Json) : Json := addSpellings (camelKey u) o v

theorem twins_eq (e : Bytes × Json) : twins u e = (twinKeys u e.1).map fun k => (k, e.2) := by
  simp only [twins, twinKeys, List.map_append, apply_ite (List.map fun k => (k, e.2)), List.map_cons, List.map_nil]

theorem expandItems_eq (vs : List Json) : expandItems u o vs = vs.map (expandKeys u o) := by
  induction vs with
  | nil => rfl
  | cons v vs ih => rw [expandItems, ih, List.map_cons]

theorem expandMembers_eq (ms : List (Bytes × Json)) : expandMembers u o ms = ms.map fun m => (m.1, expandKeys u o m.2) := by
  induction ms with
  | nil => rfl
  | cons m ms ih => rw [expandMembers, ih, List.map_cons]

theorem expandKeys_eq (v : Json) : expandKeys u o v = addSpellings (twinKeys u) o v := by
  induction v using tree_induction with
  | null | bool | num | str => rfl
  | arr vs ih => rw [expandKeys, expandItems_eq, addSpellings, addSpellingsItems_eq, List.map_congr_left ih]
  | obj ms ih =>
    have hms : expandMembers u o ms = addSpellingsMembers (twinKeys u) o ms := by
      rw [expandMembers_eq, addSpellingsMembers_eq]
      exact List.map_congr_left fun m hm => by rw [ih m hm]
    have htwins : twins u = fun e => (twinKeys u e.1).map fun k => (k, e.2) := funext twins_eq
    rw [expandKeys, addSpellings, hms, htwins]

theorem validString_append {p : Bytes} (h : Utf8.validString p = true) (t : Bytes) : Utf8.validString (p ++ t) = Utf8.validString t := by
  induction p using Utf8.rune_induction with
  | nil => rfl
  | bad a p hd _ _ => simp [Utf8.validString, Utf8.runes_bad hd, Utf8.invalid] at h
  | good c p _ ih =>
    rw [validString_encodeRune_append] at h
    rw [List.append_assoc, validString_encodeRune_append, ih h]

theorem validString_flatMap {α : Type} {l : List α} {g : α → Bytes} (h : ∀ x ∈ l, Utf8.validString (g x) = true) :
    Utf8.validString (l.flatMap g) = true := by
  induction l with
  | nil => rfl
  | cons x l ih =>
    rw [List.flatMap_cons, validString_append (h x (List.mem_cons_self ..))]
    exact ih fun y hy => h y (List.mem_cons_of_mem _ hy)

theorem validString_encodeRune (c : Nat) : Utf8.validString (Utf8.encodeRune c) = true := by
  have h := validString_encodeRune_append c []
  rwa [List.append_nil] at h

theorem validString_toSnakeCase (h : Utf8.validString k = true) : Utf8.validString (toSnakeCase u k) = true := by
  unfold toSnakeCase
  split_ifs
  · exact h
  · refine validString_flatMap fun r _ => ?_
    unfold snakeRune
    split_ifs
    · exact validString_encodeRune _
    · rw [List.singleton_append, validString_byte_cons (by decide)]
      exact validString_encodeRune _
    · exact validString_encodeRune _

theorem underscore_notMem_encodeRune {c : Nat} (hc : Utf8.IsScalar c) (hne : c ≠ 95) : (95 : UInt8) ∉ Utf8.encodeRune c := by
  intro hm
  by_cases hlt : c < 0x80
  · rw [Utf8.encodeRune, if_pos hlt, List.mem_singleton] at hm
    have hn := congrArg UInt8.toNat hm
    rw [Utf8.toNat_ofNat (by omega)] at hn
    exact hne hn.symm
  · exact absurd (high_of_mem_encodeRune (by omega) hc hm) (by decide)

theorem splitOn_append {p : Bytes} (h : (95 : UInt8) ∉ p) (t : Bytes) : (p ++ t).splitOn 95 = (t.splitOn 95).modifyHead (p ++ ·) := by
  induction p with
  | nil =>
    rw [List.nil_append]
    cases t.splitOn 95 <;> rfl
  | cons b p ih =>
    have hb : (b == (95 : UInt8)) = false := by
      rw [beq_eq_false_iff_ne]
      rintro rfl
      exact h (List.mem_cons_self ..)
    rw [List.cons_append, List.splitOn_cons_eq_if_modifyHead, hb, if_neg (by simp), ih fun hm => h (List.mem_cons_of_mem _ hm)]
    cases t.splitOn 95 <;> rfl

theorem validString_of_mem_splitOn (h : Utf8.validString k = true) : ∀ p ∈ k.splitOn 95, Utf8.validString p = true := by
  induction k using Utf8.rune_induction with
  | nil => simp [List.splitOn_nil, Utf8.validString, Utf8.runes, Utf8.runesFrom]
  | bad a t hd _ _ => simp [Utf8.validString, Utf8.runes_bad hd, Utf8.invalid] at h
  | good c t hc ih =>
    rw [validString_encodeRune_append] at h
    have ih := ih h
    by_cases h95 : c = 95
    · subst h95
      have hsplit : (Utf8.encodeRune 95 ++ t).splitOn 95 = [] :: t.splitOn 95 := by
        rw [show Utf8.encodeRune 95 = [95] from rfl, List.singleton_append, List.splitOn_cons_eq_if_modifyHead]
        rfl
      rw [hsplit]
      exact List.forall_mem_cons.2 ⟨rfl, ih⟩
    · rw [splitOn_append (underscore_notMem_encodeRune hc h95)]
      cases hs : t.splitOn 95 with
      | nil => exact fun _ hm => absurd hm List.not_mem_nil
      | cons p ps =>
        rw [hs] at ih
        obtain ⟨hp, hps⟩ := List.forall_mem_cons.1 ih
        exact List.forall_mem_cons.2 ⟨by rw [validString_encodeRune_append, hp], hps⟩

theorem validString_capitalize (p : Bytes) : Utf8.validString (capitalize u p) = true := by
  unfold capitalize
  split
  · rfl
  · rw [validString_encodeRune_append]
    exact validString_flatMap fun r _ => validString_encodeRune r.1

theorem validString_toCamelCase (h : Utf8.validString k = true) : Utf8.validString (toCamelCase u k) = true := by
  unfold toCamelCase
  split_ifs
  · split
    · rfl
    · rename_i p ps hp
      have hmem : p ∈ k.splitOn 95 := (List.mem_filter.1 (hp ▸ List.mem_cons_self ..)).1
      rw [validString_append (validString_of_mem_splitOn h p hmem)]
      exact validString_flatMap fun q _ => validString_capitalize q
  · exact h

theorem spelling_twinKeys (u : CaseTables) : Spelling (twinKeys u) := by
  intro k hk k' hk'
  rcases List.mem_append.1 hk' with h | h <;> split_ifs at h
  · rw [List.mem_singleton.1 h]
    exact validString_toSnakeCase hk
  · exact absurd h List.not_mem_nil
  · rw [List.mem_singleton.1 h]
    exact validString_toCamelCase hk
  · exact absurd h List.not_mem_nil

theorem spelling_camelKey (u : CaseTables) : Spelling (camelKey u) := by
  intro k hk k' hk'
  unfold camelKey at hk'
  split_ifs at hk'
  · rw [List.mem_singleton.1 hk']
    exact validString_toCamelCase hk
  · exact absurd hk' List.not_mem_nil

end Http
