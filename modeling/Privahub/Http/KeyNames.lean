import Privahub.Lib.Unicode

/-!
# Spellings of an object key

`toSnakeCase` and `toCamelCase` (camelcase.go) and the canonical name of a key (jsonkeys.go): its runes
folded as `encoding/json` folds them, underscores dropped. Keys are compared as lists of runes, which
`utf8.AppendRune` spells one to one. A key that a struct tag matches has the tag's canonical name
(`canonical_of_match`).
-/

namespace Http

variable (u : CaseTables)

def snakeRune (i : Nat) (r : Nat × Bytes) : Bytes :=
  if u.isUpper r.1 then (if i = 0 then [] else [95]) ++ Utf8.encodeRune (u.toLower r.1) else Utf8.encodeRune r.1

def toSnakeCase (s : Bytes) : Bytes :=
  if s = [] ∨ (Utf8.runes s).all (fun r => !u.isUpper r.1) then s
  else (Utf8.runes s).zipIdx.flatMap fun r => snakeRune u r.2 r.1

def capitalize (p : Bytes) : Bytes :=
  match Utf8.runes p with
  | [] => []
  | r :: rs => Utf8.encodeRune (u.toUpper r.1) ++ rs.flatMap fun r => Utf8.encodeRune r.1

def toCamelCase (s : Bytes) : Bytes :=
  if 95 ∉ s then s
  else
    match (s.splitOn 95).filter (· ≠ []) with
    | [] => []
    | p :: ps => p ++ ps.flatMap (capitalize u)

def foldName (k : Bytes) : List Nat := (Utf8.runes k).map fun r => u.foldRune r.1

def CanonicalJSONKey (k : Bytes) : List Nat := (((Utf8.runes k).map Prod.fst).filter (· ≠ 95)).map u.foldRune

theorem canonical_eq (k : Bytes) : CanonicalJSONKey u k = (foldName u k).filter (· ≠ 95) := by
  have hfold : foldName u k = ((Utf8.runes k).map Prod.fst).map u.foldRune := by simp [foldName]
  have hkeep : ((fun r => decide (r ≠ 95)) ∘ u.foldRune) = fun r => decide (r ≠ 95) := by
    funext r
    simp [u.foldRune_underscore]
  rw [hfold, List.filter_map, hkeep, CanonicalJSONKey]

def matchTag (tags : List Bytes) (key : Bytes) : Option Bytes :=
  if key ∈ tags then some key else tags.find? fun t => foldName u t = foldName u key

theorem canonical_of_match {tags : List Bytes} {key t : Bytes} (h : matchTag u tags key = some t) :
    CanonicalJSONKey u key = CanonicalJSONKey u t := by
  unfold matchTag at h
  split_ifs at h
  · rw [Option.some.inj h]
  · have hf : foldName u t = foldName u key := by simpa using List.find?_some h
    rw [canonical_eq, canonical_eq, hf]

end Http
