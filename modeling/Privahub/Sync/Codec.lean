import Mathlib.Data.List.Find
import Privahub.Sync.Ownership

/-!
# Rows of messages

`codec.go`: the keys of a message become the columns of a row. Go runs over a map in any order, so that of several keys
that mean one column any may be the first; an `Order` is one way to run over the keys, and `Spelled` says that no two
keys are in each other's way. How numbers and nested values are written, and what the columns other than strings
decode to, is left to a `Codec`.
-/

namespace Sync

structure Codec where
  unicode : CaseTables
  formatFloat : Bytes → Bytes
  marshal : Json → Bytes
  /-- The columns that are no strings: the time of the last modification, nothing if one of them does not fit. -/
  rest : Bytes → (Bytes → Option Json) → Option Int

def keyAliases : List (Bytes × Bytes) :=
  [(str "vote_partition_i_d", str "vote_participant_id"), (str "vote_partition_id", str "vote_participant_id"), (str "vote_i_d", str "vote_id"),
    (str "desc", str "description")]

def snakeRunes (u : CaseTables) : Option Nat → List (Nat × Bytes) → Bytes
  | _, [] => []
  | prev, r :: rs =>
    (if u.isUpper r.1 then (if prev = none ∨ prev = some 95 then [] else str "_") ++ Utf8.encodeRune (u.toLower r.1) else r.2) ++ snakeRunes u (some r.1) rs

def toSnake (u : CaseTables) (s : Bytes) : Bytes :=
  if (Utf8.runes s).any fun r => u.isUpper r.1 then snakeRunes u none (Utf8.runes s) else s

def columnOf (u : CaseTables) (k : Bytes) : Bytes := (keyAliases.lookup (toSnake u k)).getD (toSnake u k)

def put (u : CaseTables) (out : Bytes → Option Json) (kv : Bytes × Json) : Bytes → Option Json :=
  if (out (columnOf u kv.1)).isSome = true ∧ columnOf u kv.1 ≠ kv.1 then out else Function.update out (columnOf u kv.1) (some kv.2)

def goMap (members : List (Bytes × Json)) : List (Bytes × Json) :=
  members.foldl (fun m kv => (m.filter fun e => decide (e.1 ≠ Json.unquote kv.1)) ++ [(Json.unquote kv.1, kv.2)]) []

def snakeKeys (u : CaseTables) (m : List (Bytes × Json)) : List (Bytes × Json) := m.filter fun kv => decide (kv.1 ≠ str "upk" ∧ kv.1 = toSnake u kv.1)

def camelKeys (u : CaseTables) (m : List (Bytes × Json)) : List (Bytes × Json) := m.filter fun kv => decide (kv.1 ≠ str "upk" ∧ kv.1 ≠ toSnake u kv.1)

def upkKeys (m : List (Bytes × Json)) : List (Bytes × Json) :=
  match m.lookup (str "upk") with
  | some (.obj members) => goMap members
  | _ => []

/-- How the three loops of `normalizeKeys` run over the message. -/
structure Order where
  snake : List (Bytes × Json)
  camel : List (Bytes × Json)
  upk : List (Bytes × Json)

structure Order.Of (u : CaseTables) (m : List (Bytes × Json)) (o : Order) : Prop where
  snake : o.snake.Perm (snakeKeys u m)
  camel : o.camel.Perm (camelKeys u m)
  upk : o.upk.Perm (upkKeys m)

def normalizeKeys (u : CaseTables) (o : Order) : Bytes → Option Json :=
  o.upk.foldl (put u) (o.camel.foldl (put u) (o.snake.foldl (put u) fun _ => none))

namespace Codec

variable (k : Codec)

/-- `coerce` of a string column: `null` leaves it empty. -/
def coerceString : Json → Bytes
  | .null => []
  | .str lit => Json.unquote lit
  | .num lit => k.formatFloat lit
  | .bool true => str "true"
  | .bool false => str "false"
  | v => k.marshal v

/-- `Decode` of the map that `normalizeKeys` makes. -/
def decodeRow (table : Bytes) (out : Bytes → Option Json) : Option Entity :=
  match info table, k.rest table out with
  | some i, some gmtModified => some ⟨table, i.columns.filterMap fun c => (out c).map fun v => (c, k.coerceString v), gmtModified⟩
  | _, _ => none

/-- `Decode`, with the order in which Go runs over the keys. -/
def Decode (table : Bytes) (o : Order) : Option Entity := k.decodeRow table (normalizeKeys k.unicode o)

end Codec

/-- Of the keys of one column, at most one is not the column itself. -/
def SpelledOnce (u : CaseTables) (l : List (Bytes × Json)) : Prop :=
  ∀ a ∈ l, ∀ b ∈ l, columnOf u a.1 = columnOf u b.1 → columnOf u a.1 ≠ a.1 → columnOf u b.1 ≠ b.1 → a = b

/-- No two keys of the message become one column, unless they are tried one after the other. -/
structure Spelled (u : CaseTables) (m : List (Bytes × Json)) : Prop where
  snake : SpelledOnce u (snakeKeys u m)
  camel : SpelledOnce u (camelKeys u m)
  upk : SpelledOnce u (upkKeys m)

variable {u : CaseTables} {l l' m : List (Bytes × Json)} {o o' : Order} {col : Bytes} {out out' : Bytes → Option Json}

theorem put_self (kv : Bytes × Json) : put u out kv (columnOf u kv.1) =
    if (out (columnOf u kv.1)).isSome = true ∧ columnOf u kv.1 ≠ kv.1 then out (columnOf u kv.1) else some kv.2 := by
  unfold put
  split_ifs
  · rfl
  · exact Function.update_self _ _ _

theorem put_other {kv : Bytes × Json} (h : columnOf u kv.1 ≠ col) : put u out kv col = out col := by
  unfold put
  split_ifs
  · rfl
  · exact Function.update_of_ne (Ne.symm h) _ _

/-- A loop leaves the value of the key that is the column, or else the value that was there, or else that of the first
key of the column. -/
theorem foldl_put (hkeys : (l.map (·.1)).Nodup) : l.foldl (put u) out col =
    (((l.find? fun kv => decide (kv.1 = col ∧ columnOf u kv.1 = col)).map (·.2)).or (out col)).or
      ((l.find? fun kv => decide (columnOf u kv.1 = col)).map (·.2)) := by
  induction l generalizing out with
  | nil => simp
  | cons kv l ih =>
    obtain ⟨hnew, hkeys⟩ := List.nodup_cons.1 hkeys
    rw [List.foldl_cons, ih hkeys, List.find?_cons, List.find?_cons]
    by_cases hcol : columnOf u kv.1 = col
    · subst hcol
      rw [put_self]
      by_cases hself : kv.1 = columnOf u kv.1
      · have hnone : (l.find? fun e => decide (e.1 = columnOf u kv.1 ∧ columnOf u e.1 = columnOf u kv.1)) = none := by
          refine List.find?_eq_none.2 fun e he => ?_
          simp only [decide_eq_true_eq, not_and]
          exact fun h => absurd (List.mem_map.2 ⟨e, he, h.trans hself.symm⟩) hnew
        rw [hnone]
        simp [← hself]
      · cases hout : out (columnOf u kv.1) with
        | none => simp [hself, Ne.symm hself]
        | some v => simp [hself, Ne.symm hself]
    · rw [put_other hcol]
      simp [hcol]

theorem foldl_put_perm (h : l.Perm l') (hkeys : (l.map (·.1)).Nodup) (hs : SpelledOnce u l) (hout : out col = out' col) :
    l.foldl (put u) out col = l'.foldl (put u) out' col := by
  have hkeys' : (l'.map (·.1)).Nodup := (h.map _).nodup_iff.1 hkeys
  have hself : (l.find? fun kv => decide (kv.1 = col ∧ columnOf u kv.1 = col)) = l'.find? fun kv => decide (kv.1 = col ∧ columnOf u kv.1 = col) := by
    refine List.find?_eq_find?_of_perm h fun a ha b hb => ?_
    obtain ⟨ha, hpa⟩ := ha
    obtain ⟨hb, hpb⟩ := hb
    exact List.inj_on_of_nodup_map hkeys ha hb ((of_decide_eq_true hpa).1.trans (of_decide_eq_true hpb).1.symm)
  rw [foldl_put hkeys, foldl_put hkeys', hself, hout]
  cases hex : l'.find? fun kv => decide (kv.1 = col ∧ columnOf u kv.1 = col) with
  | some kv => rfl
  | none =>
    -- no key is the column, so there is one key of the column at most
    have hfirst : (l.find? fun kv => decide (columnOf u kv.1 = col)) = l'.find? fun kv => decide (columnOf u kv.1 = col) := by
      refine List.find?_eq_find?_of_perm h fun a ha b hb => ?_
      obtain ⟨ha, hpa⟩ := ha
      obtain ⟨hb, hpb⟩ := hb
      have hca : columnOf u a.1 = col := of_decide_eq_true hpa
      have hcb : columnOf u b.1 = col := of_decide_eq_true hpb
      have hne : ∀ kv ∈ l, columnOf u kv.1 = col → columnOf u kv.1 ≠ kv.1 := by
        intro kv hkv hc he
        have hno := List.find?_eq_none.1 (hself.trans hex) kv hkv
        exact hno (decide_eq_true ⟨he.symm.trans hc, hc⟩)
      exact hs a ha b hb (hca.trans hcb.symm) (hne a ha hca) (hne b hb hcb)
    rw [hfirst]

theorem goMap_nodup {members : List (Bytes × Json)} : ((goMap members).map (·.1)).Nodup := by
  unfold goMap
  have hfold : ∀ l : List (Bytes × Json), (l.map (·.1)).Nodup → ((members.foldl (fun m kv =>
      (m.filter fun e => decide (e.1 ≠ Json.unquote kv.1)) ++ [(Json.unquote kv.1, kv.2)]) l).map (·.1)).Nodup := by
    induction members with
    | nil => exact fun l h => h
    | cons kv members ih =>
      intro l h
      refine ih _ ?_
      rw [List.map_append, List.map_singleton]
      refine List.nodup_append.2 ⟨h.sublist (List.filter_sublist.map _), List.nodup_singleton _, fun a ha b hb => ?_⟩
      obtain ⟨e, he, rfl⟩ := List.mem_map.1 ha
      obtain rfl := List.mem_singleton.1 hb
      exact of_decide_eq_true (List.mem_filter.1 he).2
  exact hfold [] List.nodup_nil

theorem upkKeys_nodup : ((upkKeys m).map (·.1)).Nodup := by
  unfold upkKeys
  split
  · exact goMap_nodup
  · exact List.nodup_nil

theorem normalizeKeys_order (hm : (m.map (·.1)).Nodup) (hs : Spelled u m) (ho : o.Of u m) (ho' : o'.Of u m) : normalizeKeys u o = normalizeKeys u o' := by
  have hsnake : ((snakeKeys u m).map (·.1)).Nodup := hm.sublist (List.filter_sublist.map _)
  have hcamel : ((camelKeys u m).map (·.1)).Nodup := hm.sublist (List.filter_sublist.map _)
  have hspelled : ∀ {l l' : List (Bytes × Json)}, l'.Perm l → SpelledOnce u l → SpelledOnce u l' := fun hp h a ha b hb =>
    h a (hp.subset ha) b (hp.subset hb)
  funext col
  unfold normalizeKeys
  refine foldl_put_perm (ho.upk.trans ho'.upk.symm) ((ho.upk.map _).nodup_iff.2 upkKeys_nodup) (hspelled ho.upk hs.upk) ?_
  refine foldl_put_perm (ho.camel.trans ho'.camel.symm) ((ho.camel.map _).nodup_iff.2 hcamel) (hspelled ho.camel hs.camel) ?_
  exact foldl_put_perm (ho.snake.trans ho'.snake.symm) ((ho.snake.map _).nodup_iff.2 hsnake) (hspelled ho.snake hs.snake) rfl

theorem Codec.decode_order {k : Codec} {table : Bytes} (hm : (m.map (·.1)).Nodup) (hs : Spelled k.unicode m) (ho : o.Of k.unicode m)
    (ho' : o'.Of k.unicode m) : k.Decode table o = k.Decode table o' := by
  unfold Codec.Decode
  rw [normalizeKeys_order hm hs ho ho']

end Sync
