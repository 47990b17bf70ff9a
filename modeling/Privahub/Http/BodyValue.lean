import Privahub.Http.CaseKeys

/-!
# What a body says

`content` is the tree that a decoder makes of a body that leaves its numbers as they are spelled. Decoding
into an `interface{}` gives that tree with every number respelled (`decodeAny_of_range`), or nothing if one
is out of range, and what is marshalled of a clean tree says the same again (`content_encode_obj`).
-/

namespace Http

open Json

mutual

def content : Json → Json
  | .str lit => .str (unquote lit)
  | .arr vs => .arr (contentItems vs)
  | .obj ms => .obj ((contentMembers ms).foldl mapPut [])
  | v => v

def contentItems : List Json → List Json
  | [] => []
  | v :: vs => content v :: contentItems vs

def contentMembers : List (Bytes × Json) → List (Bytes × Json)
  | [] => []
  | (k, v) :: ms => (unquote k, content v) :: contentMembers ms

end

mutual

def numbers : Json → List Bytes
  | .num lit => [lit]
  | .arr vs => numbersItems vs
  | .obj ms => numbersMembers ms
  | _ => []

def numbersItems : List Json → List Bytes
  | [] => []
  | v :: vs => numbers v ++ numbersItems vs

def numbersMembers : List (Bytes × Json) → List Bytes
  | [] => []
  | (_, v) :: ms => numbers v ++ numbersMembers ms

end

mutual

def respell (f : Bytes → Bytes) : Json → Json
  | .num lit => .num (f lit)
  | .arr vs => .arr (respellItems f vs)
  | .obj ms => .obj (respellMembers f ms)
  | v => v

def respellItems (f : Bytes → Bytes) : List Json → List Json
  | [] => []
  | v :: vs => respell f v :: respellItems f vs

def respellMembers (f : Bytes → Bytes) : List (Bytes × Json) → List (Bytes × Json)
  | [] => []
  | (k, v) :: ms => (k, respell f v) :: respellMembers f ms

end

mutual

def Clean : Json → Prop
  | .str s => Utf8.validString s = true
  | .arr vs => CleanItems vs
  | .obj ms => (ms.map Prod.fst).Nodup ∧ CleanMembers ms
  | _ => True

def CleanItems : List Json → Prop
  | [] => True
  | v :: vs => Clean v ∧ CleanItems vs

def CleanMembers : List (Bytes × Json) → Prop
  | [] => True
  | (k, v) :: ms => (Utf8.validString k = true ∧ Clean v) ∧ CleanMembers ms

end

/-- How a number comes out of `float64`. -/
def Floats.spelled (fl : Floats) (lit : Bytes) : Bytes := (fl.text lit).getD lit

variable {fl : Floats} {f : Bytes → Bytes} {vs : List Json} {ms ns : List (Bytes × Json)} {v w : Json} {lit : Bytes}

theorem contentItems_eq (vs : List Json) : contentItems vs = vs.map content := by
  induction vs with
  | nil => rfl
  | cons v vs ih => rw [contentItems, ih, List.map_cons]

theorem contentMembers_eq (ms : List (Bytes × Json)) : contentMembers ms = ms.map fun m => (unquote m.1, content m.2) := by
  induction ms with
  | nil => rfl
  | cons m ms ih => rw [contentMembers, ih, List.map_cons]

theorem respellItems_eq (f : Bytes → Bytes) (vs : List Json) : respellItems f vs = vs.map (respell f) := by
  induction vs with
  | nil => rfl
  | cons v vs ih => rw [respellItems, ih, List.map_cons]

theorem respellMembers_eq (f : Bytes → Bytes) (ms : List (Bytes × Json)) : respellMembers f ms = ms.map fun m => (m.1, respell f m.2) := by
  induction ms with
  | nil => rfl
  | cons m ms ih => rw [respellMembers, ih, List.map_cons]

theorem encodeItems_eq (vs : List Json) : encodeItems vs = vs.map encode := by
  induction vs with
  | nil => rfl
  | cons v vs ih => rw [encodeItems, ih, List.map_cons]

theorem encodeMembers_eq (ms : List (Bytes × Json)) : encodeMembers ms = ms.map fun m => (m.1, encode m.2) := by
  induction ms with
  | nil => rfl
  | cons m ms ih => rw [encodeMembers, ih, List.map_cons]

theorem mem_numbers_arr : lit ∈ numbers (.arr vs) ↔ ∃ v ∈ vs, lit ∈ numbers v := by
  rw [numbers]
  induction vs with
  | nil => simp [numbersItems]
  | cons v vs ih => simp [numbersItems, ih]

theorem mem_numbers_obj : lit ∈ numbers (.obj ms) ↔ ∃ m ∈ ms, lit ∈ numbers m.2 := by
  rw [numbers]
  induction ms with
  | nil => simp [numbersMembers]
  | cons m ms ih => simp [numbersMembers, ih]

theorem clean_arr : Clean (.arr vs) ↔ ∀ v ∈ vs, Clean v := by
  rw [Clean]
  induction vs with
  | nil => simp [CleanItems]
  | cons v vs ih => simp [CleanItems, ih]

theorem clean_obj : Clean (.obj ms) ↔ (ms.map Prod.fst).Nodup ∧ ∀ m ∈ ms, Utf8.validString m.1 = true ∧ Clean m.2 := by
  have hmem : CleanMembers ms ↔ ∀ m ∈ ms, Utf8.validString m.1 = true ∧ Clean m.2 := by
    induction ms with
    | nil => simp [CleanMembers]
    | cons m ms ih => simp [CleanMembers, ih]
  rw [Clean, hmem]

theorem mem_of_mem_foldl_mapPut {l t : List (Bytes × Json)} {m : Bytes × Json} (h : m ∈ l.foldl mapPut t) : m ∈ t ∨ m ∈ l := by
  induction l generalizing t with
  | nil => exact .inl h
  | cons e l ih =>
    rcases ih h with hm | hm
    · rcases List.mem_append.1 hm with hm | hm
      · exact .inl (List.mem_filter.1 hm).1
      · exact .inr (List.mem_singleton.1 hm ▸ List.mem_cons_self ..)
    · exact .inr (List.mem_cons_of_mem _ hm)

theorem nodup_foldl_mapPut {l t : List (Bytes × Json)} (h : (t.map Prod.fst).Nodup) : ((l.foldl mapPut t).map Prod.fst).Nodup := by
  induction l generalizing t with
  | nil => exact h
  | cons e l ih =>
    refine ih ?_
    rw [mapPut, List.map_append]
    refine List.Nodup.append (h.sublist (List.filter_sublist.map _)) (by simp) fun k hk he => ?_
    obtain ⟨x, hx, rfl⟩ := List.mem_map.1 hk
    have hne : x.1 ≠ e.1 := by simpa using (List.mem_filter.1 hx).2
    exact hne (by simpa using he)

theorem foldl_mapPut_eq {l t : List (Bytes × Json)} (h : ((t ++ l).map Prod.fst).Nodup) : l.foldl mapPut t = t ++ l := by
  induction l generalizing t with
  | nil => simp
  | cons e l ih =>
    have hput : mapPut t e = t ++ [e] := by
      rw [mapPut, List.filter_eq_self.2]
      intro x hx
      rw [List.map_append, List.nodup_append] at h
      simpa using h.2.2 x.1 (List.mem_map_of_mem hx) e.1 (by simp)
    rw [List.foldl_cons, hput, ih (by simpa using h), List.append_assoc, List.singleton_append]

theorem foldl_mapPut_map (g : Json → Json) (l t : List (Bytes × Json)) :
    (l.map fun m => (m.1, g m.2)).foldl mapPut (t.map fun m => (m.1, g m.2)) = (l.foldl mapPut t).map fun m => (m.1, g m.2) := by
  induction l generalizing t with
  | nil => rfl
  | cons e l ih =>
    have hput : mapPut (t.map fun m => (m.1, g m.2)) (e.1, g e.2) = (mapPut t e).map fun m => (m.1, g m.2) := by
      rw [mapPut, mapPut, List.map_append, List.filter_map]
      rfl
    rw [List.map_cons, List.foldl_cons, List.foldl_cons, hput, ih]

theorem numbers_content : ∀ v : Json, ∀ lit ∈ numbers (content v), lit ∈ numbers v := by
  intro v
  induction v using tree_induction with
  | null | bool | num => exact fun _ h => h
  | str lit => exact fun _ h => absurd h List.not_mem_nil
  | arr vs ih =>
    intro lit h
    rw [content, contentItems_eq] at h
    obtain ⟨w, hw, hl⟩ := mem_numbers_arr.1 h
    obtain ⟨v, hv, rfl⟩ := List.mem_map.1 hw
    exact mem_numbers_arr.2 ⟨v, hv, ih v hv lit hl⟩
  | obj ms ih =>
    intro lit h
    rw [content] at h
    obtain ⟨n, hn, hl⟩ := mem_numbers_obj.1 h
    have hn := (mem_of_mem_foldl_mapPut hn).resolve_left List.not_mem_nil
    rw [contentMembers_eq] at hn
    obtain ⟨m, hm, rfl⟩ := List.mem_map.1 hn
    exact mem_numbers_obj.2 ⟨m, hm, ih m hm lit hl⟩

theorem clean_content (v : Json) (h : Wf v) : Clean (content v) := by
  induction v using tree_induction with
  | null | bool | num => trivial
  | str lit => exact validString_unquote h
  | arr vs ih =>
    rw [content, contentItems_eq]
    refine clean_arr.2 fun w hw => ?_
    obtain ⟨v, hv, rfl⟩ := List.mem_map.1 hw
    exact ih v hv ((wfItems_iff vs).1 h v hv)
  | obj ms ih =>
    rw [content]
    refine clean_obj.2 ⟨nodup_foldl_mapPut List.nodup_nil, fun n hn => ?_⟩
    have hn := (mem_of_mem_foldl_mapPut hn).resolve_left List.not_mem_nil
    rw [contentMembers_eq] at hn
    obtain ⟨m, hm, rfl⟩ := List.mem_map.1 hn
    have hwf := (wfMembers_iff ms).1 h m hm
    exact ⟨validString_unquote hwf.1, ih m hm hwf.2⟩

theorem decodeItems_eq {g : Json → Json} (h : ∀ v ∈ vs, decodeAny fl v = some (g v)) : decodeItems fl vs = some (vs.map g) := by
  induction vs with
  | nil => rfl
  | cons v vs ih =>
    rw [decodeItems, h v (List.mem_cons_self ..), ih fun w hw => h w (List.mem_cons_of_mem _ hw)]
    rfl

theorem decodeMembers_eq {g : Json → Json} (h : ∀ m ∈ ms, decodeAny fl m.2 = some (g m.2)) :
    decodeMembers fl ms = some (ms.map fun m => (unquote m.1, g m.2)) := by
  induction ms with
  | nil => rfl
  | cons m ms ih =>
    rw [decodeMembers, h m (List.mem_cons_self ..), ih fun w hw => h w (List.mem_cons_of_mem _ hw)]
    rfl

theorem decodeItems_none (h : ∃ v ∈ vs, decodeAny fl v = none) : decodeItems fl vs = none := by
  induction vs with
  | nil => simp at h
  | cons v vs ih =>
    rw [decodeItems]
    cases hv : decodeAny fl v with
    | none => rfl
    | some w =>
      have h : ∃ v ∈ vs, decodeAny fl v = none := by simpa [hv] using h
      rw [ih h]
      rfl

theorem decodeMembers_none (h : ∃ m ∈ ms, decodeAny fl m.2 = none) : decodeMembers fl ms = none := by
  induction ms with
  | nil => simp at h
  | cons m ms ih =>
    rw [decodeMembers]
    cases hv : decodeAny fl m.2 with
    | none => rfl
    | some w =>
      have h : ∃ m ∈ ms, decodeAny fl m.2 = none := by simpa [hv] using h
      rw [ih h]
      rfl

theorem decodeAny_of_range (v : Json) (h : ∀ lit ∈ numbers v, fl.text lit ≠ none) : decodeAny fl v = some (respell fl.spelled (content v)) := by
  induction v using tree_induction with
  | null | bool | str => rfl
  | num lit =>
    obtain ⟨t, ht⟩ := Option.ne_none_iff_exists'.1 (h lit (List.mem_singleton_self _))
    have hs : fl.spelled lit = t := by rw [Floats.spelled, ht, Option.getD_some]
    show (fl.text lit).map Json.num = some (.num (fl.spelled lit))
    rw [hs, ht, Option.map_some]
  | arr vs ih =>
    rw [decodeAny, decodeItems_eq fun v hv => ih v hv fun lit hl => h lit (mem_numbers_arr.2 ⟨v, hv, hl⟩), content, respell,
      contentItems_eq, respellItems_eq, List.map_map]
    rfl
  | obj ms ih =>
    have hmap : (ms.map fun m => (unquote m.1, respell fl.spelled (content m.2))) =
        (contentMembers ms).map fun m => (m.1, respell fl.spelled m.2) := by
      rw [contentMembers_eq, List.map_map]
      rfl
    rw [decodeAny, decodeMembers_eq (g := fun v => respell fl.spelled (content v)) fun m hm =>
      ih m hm fun lit hl => h lit (mem_numbers_obj.2 ⟨m, hm, hl⟩), Option.map_some, hmap, content, respell, respellMembers_eq]
    exact congrArg (fun ms => some (Json.obj ms)) (foldl_mapPut_map (respell fl.spelled) (contentMembers ms) [])

theorem decodeAny_out_of_range (v : Json) (h : ∃ lit ∈ numbers v, fl.text lit = none) : decodeAny fl v = none := by
  induction v using tree_induction with
  | null | bool | str => simp [numbers] at h
  | num lit =>
    have h : fl.text lit = none := by simpa [numbers] using h
    rw [decodeAny, h]
    rfl
  | arr vs ih =>
    obtain ⟨lit, hl, hn⟩ := h
    obtain ⟨v, hv, hl⟩ := mem_numbers_arr.1 hl
    rw [decodeAny, decodeItems_none ⟨v, hv, ih v hv ⟨lit, hl, hn⟩⟩]
    rfl
  | obj ms ih =>
    obtain ⟨lit, hl, hn⟩ := h
    obtain ⟨m, hm, hl⟩ := mem_numbers_obj.1 hl
    rw [decodeAny, decodeMembers_none ⟨m, hm, ih m hm ⟨lit, hl, hn⟩⟩]
    rfl

theorem numLit_spelled (h : fl.text lit ≠ none) : NumLit (fl.spelled lit) := by
  obtain ⟨t, ht⟩ := Option.ne_none_iff_exists'.1 h
  rw [Floats.spelled, ht]
  exact fl.numLit lit t ht

theorem mem_numbers_respell : lit ∈ numbers (respell f v) ↔ ∃ l ∈ numbers v, f l = lit := by
  induction v using tree_induction with
  | null | bool | str => simp [respell, numbers]
  | num l => simp [respell, numbers, eq_comm]
  | arr vs ih =>
    rw [respell, respellItems_eq, mem_numbers_arr]
    constructor
    · rintro ⟨w, hw, hl⟩
      obtain ⟨v, hv, rfl⟩ := List.mem_map.1 hw
      obtain ⟨l, hl, hf⟩ := (ih v hv).1 hl
      exact ⟨l, mem_numbers_arr.2 ⟨v, hv, hl⟩, hf⟩
    · rintro ⟨l, hl, hf⟩
      obtain ⟨v, hv, hl⟩ := mem_numbers_arr.1 hl
      exact ⟨_, List.mem_map_of_mem hv, (ih v hv).2 ⟨l, hl, hf⟩⟩
  | obj ms ih =>
    rw [respell, respellMembers_eq, mem_numbers_obj]
    constructor
    · rintro ⟨n, hn, hl⟩
      obtain ⟨m, hm, rfl⟩ := List.mem_map.1 hn
      obtain ⟨l, hl, hf⟩ := (ih m hm).1 hl
      exact ⟨l, mem_numbers_obj.2 ⟨m, hm, hl⟩, hf⟩
    · rintro ⟨l, hl, hf⟩
      obtain ⟨m, hm, hl⟩ := mem_numbers_obj.1 hl
      exact ⟨_, List.mem_map_of_mem hm, (ih m hm).2 ⟨l, hl, hf⟩⟩

theorem numLit_of_decodeAny (h : decodeAny fl v = some w) : ∀ lit ∈ numbers w, NumLit lit := by
  by_cases hr : ∃ lit ∈ numbers v, fl.text lit = none
  · rw [decodeAny_out_of_range v hr] at h
    cases h
  have hr : ∀ lit ∈ numbers v, fl.text lit ≠ none := fun lit hl hn => hr ⟨lit, hl, hn⟩
  obtain rfl := Option.some.inj ((decodeAny_of_range v hr).symm.trans h)
  intro lit hl
  obtain ⟨l, hmem, rfl⟩ := mem_numbers_respell.1 hl
  exact numLit_spelled (hr l (numbers_content v l hmem))

theorem clean_respell (h : Clean v) : Clean (respell f v) := by
  induction v using tree_induction with
  | null | bool | num => trivial
  | str => exact h
  | arr vs ih =>
    rw [respell, respellItems_eq]
    refine clean_arr.2 fun w hw => ?_
    obtain ⟨v, hv, rfl⟩ := List.mem_map.1 hw
    exact ih v hv (clean_arr.1 h v hv)
  | obj ms ih =>
    obtain ⟨hn, hm⟩ := clean_obj.1 h
    rw [respell, respellMembers_eq]
    refine clean_obj.2 ⟨by rw [List.map_map]; exact hn, fun n hn => ?_⟩
    obtain ⟨m, hmem, rfl⟩ := List.mem_map.1 hn
    exact ⟨(hm m hmem).1, ih m hmem (hm m hmem).2⟩

theorem wf_encode (v : Json) (h : ∀ lit ∈ numbers v, NumLit lit) : Wf (encode v) := by
  induction v using tree_induction with
  | null | bool => trivial
  | num lit => exact h lit (List.mem_singleton_self _)
  | str s => exact strLit_escape s
  | arr vs ih =>
    rw [encode, encodeItems_eq]
    refine (wfItems_iff _).2 fun w hw => ?_
    obtain ⟨v, hv, rfl⟩ := List.mem_map.1 hw
    exact ih v hv fun lit hl => h lit (mem_numbers_arr.2 ⟨v, hv, hl⟩)
  | obj ms ih =>
    refine (wfMembers_iff _).2 fun w hw => ?_
    obtain ⟨e, he, rfl⟩ := List.mem_map.1 hw
    have he := (List.perm_insertionSort _ _).mem_iff.1 he
    rw [encodeMembers_eq] at he
    obtain ⟨m, hm, rfl⟩ := List.mem_map.1 he
    exact ⟨strLit_escape _, ih m hm fun lit hl => h lit (mem_numbers_obj.2 ⟨m, hm, hl⟩)⟩

theorem content_encode_obj (h : Clean (.obj ms)) :
    ∃ ns, content (encode (.obj ms)) = .obj ns ∧ ns.Perm (ms.map fun m => (m.1, content (encode m.2))) := by
  obtain ⟨hnodup, hm⟩ := clean_obj.1 h
  have hperm := List.perm_insertionSort (fun a b => Audit.bytesLe a.1 b.1) (encodeMembers ms)
  have hread : (contentMembers (((encodeMembers ms).insertionSort fun a b => Audit.bytesLe a.1 b.1).map fun e => (escape e.1, e.2))).Perm
      (ms.map fun m => (m.1, content (encode m.2))) := by
    rw [contentMembers_eq, List.map_map]
    refine (hperm.map _).trans (.of_eq ?_)
    rw [encodeMembers_eq, List.map_map]
    refine List.map_congr_left fun m hmem => ?_
    simp only [Function.comp, unquote_escape, repair_eq_self (hm m hmem).1]
  refine ⟨_, rfl, ?_⟩
  rw [foldl_mapPut_eq, List.nil_append]
  · exact hread
  · rw [List.nil_append, (hread.map _).nodup_iff, List.map_map]
    exact hnodup

end Http
