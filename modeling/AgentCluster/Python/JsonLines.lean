import AgentCluster.Python.FloatReading
import AgentCluster.Python.JsonRoundTrip

/-!
# One JSON text a line

What `json.dumps` writes has no newline in it, so a text of one value a line is read back line by line
(`loads_lines`). A value that `json` does not know is written with `default=str`: `seen` is what a
reader finds of it.
-/

set_option autoImplicit false

namespace AgentCluster.Python

namespace Json

/-! ## No newline -/

theorem newline_not_mem_escapeChar (c : Char) : '\n' ∉ escapeChar c := by
  have hdigit : ∀ n : Nat, '\n' ≠ (n % 16).digitChar := by
    intro n hn
    have hread := hexVal_digitChar (Nat.mod_lt n (by decide : 0 < 16))
    rw [← hn] at hread
    cases hread
  have hescape : ∀ n, '\n' ∉ unicodeEscape n := by
    intro n
    simp [unicodeEscape, hdigit]
  unfold escapeChar
  split_ifs with hquote hbackslash hnewline hreturn htab hfeed hback hplain hshort
  · decide
  · decide
  · decide
  · decide
  · decide
  · decide
  · decide
  · simpa using Ne.symm hnewline
  · exact hescape _
  · simp [hescape]

theorem newline_not_mem_encodeString (s : String) : '\n' ∉ encodeString s := by
  simp [encodeString, newline_not_mem_escapeChar]

theorem newline_not_mem_render {d : DecimalLiteral} (h : d.WellFormed) : '\n' ∉ d.render := by
  intro hmem
  have hplain : isAsciiSpace '\n' = false := (isPlain_of_mem_render h '\n' hmem).2.1
  cases hplain

theorem newline_not_mem_encodeFloat (x : Binary64) : '\n' ∉ encodeFloat x := by
  cases x with
  | nan => decide
  | inf neg => cases neg <;> decide
  | finite neg m q h => exact newline_not_mem_render (wellFormed_shortestLiteral _).1

theorem newline_not_mem_encodeItems {xs : List Value} (h : ∀ x ∈ xs, '\n' ∉ encode x) {sep : List Char}
    (hsep : '\n' ∉ sep) : '\n' ∉ encodeItems sep xs := by
  induction xs generalizing sep with
  | nil => simp [encodeItems]
  | cons x xs ih =>
    obtain ⟨hx, hxs⟩ := List.forall_mem_cons.1 h
    simp [encodeItems, hsep, hx, ih hxs]

theorem newline_not_mem_encodeMembers {d : Dict} (h : ∀ kv ∈ d, '\n' ∉ encode kv.2) {sep : List Char}
    (hsep : '\n' ∉ sep) : '\n' ∉ encodeMembers sep d := by
  induction d generalizing sep with
  | nil => simp [encodeMembers]
  | cons kv d ih =>
    obtain ⟨hkv, hd⟩ := List.forall_mem_cons.1 h
    simp [encodeMembers, hsep, hkv, newline_not_mem_encodeString, ih hd]

theorem newline_not_mem_encode (v : Value) : '\n' ∉ encode v := by
  induction v using Value.induct with
  | none => decide
  | bool b => cases b <;> decide
  | int n => exact newline_not_mem_render (wellFormed_ofInt n)
  | float x => exact newline_not_mem_encodeFloat x
  | str s => exact newline_not_mem_encodeString s
  | object s r h => exact newline_not_mem_encodeString s
  | list xs ih => simp [encode, newline_not_mem_encodeItems ih]
  | tuple xs ih => simp [encode, newline_not_mem_encodeItems ih]
  | dict d ih => simp [encode, newline_not_mem_encodeMembers ih]

/-! ## What a reader finds -/

mutual

/-- A tuple is read as a list, and what `json` does not know as its `str`. -/
def seen : Value → Value
  | .list xs => .list (seenList xs)
  | .tuple xs => .list (seenList xs)
  | .dict d => .dict (seenDict d)
  | .object s _ _ => .str s
  | v => v

def seenList : List Value → List Value
  | [] => []
  | x :: xs => seen x :: seenList xs

def seenDict : List (String × Value) → List (String × Value)
  | [] => []
  | (k, v) :: d => (k, seen v) :: seenDict d

end

theorem encodeItems_seen {xs : List Value} (h : ∀ x ∈ xs, encode (seen x) = encode x) (sep : List Char) :
    encodeItems sep (seenList xs) = encodeItems sep xs := by
  induction xs generalizing sep with
  | nil => rfl
  | cons x xs ih =>
    obtain ⟨hx, hxs⟩ := List.forall_mem_cons.1 h
    simp only [seenList, encodeItems, hx, ih hxs]

theorem encodeMembers_seen {d : Dict} (h : ∀ kv ∈ d, encode (seen kv.2) = encode kv.2)
    (sep : List Char) : encodeMembers sep (seenDict d) = encodeMembers sep d := by
  induction d generalizing sep with
  | nil => rfl
  | cons kv d ih =>
    obtain ⟨hkv, hd⟩ := List.forall_mem_cons.1 h
    simp only [seenDict, encodeMembers, hkv, ih hd]

/-- A value and what a reader finds of it have one text. -/
theorem encode_seen (v : Value) : encode (seen v) = encode v := by
  induction v using Value.induct with
  | list xs ih => simp only [seen, encode, encodeItems_seen ih]
  | tuple xs ih => simp only [seen, encode, encodeItems_seen ih]
  | dict d ih => simp only [seen, encode, encodeMembers_seen ih]
  | _ => rfl

theorem seenList_eq_map (xs : List Value) : seenList xs = xs.map seen := by
  induction xs with
  | nil => rfl
  | cons x xs ih => simp [seenList, ih]

theorem seenDict_eq_map (d : Dict) : seenDict d = d.map fun kv => (kv.1, seen kv.2) := by
  induction d with
  | nil => rfl
  | cons kv d ih => simp [seenDict, ih]

theorem seenDict_append (d e : Dict) : seenDict (d ++ e) = seenDict d ++ seenDict e := by
  rw [seenDict_eq_map, seenDict_eq_map, seenDict_eq_map, List.map_append]

/-- A JSON value is read as it is. -/
theorem seen_of_isJson {v : Value} (h : v.isJson = true) : seen v = v := by
  induction v using Value.induct with
  | list xs ih =>
    rw [Value.isJson_list_iff] at h
    rw [seen, seenList_eq_map]
    exact congrArg Value.list ((List.map_congr_left fun x hx => ih x hx (h x hx)).trans
      (List.map_id xs))
  | dict d ih =>
    rw [Value.isJson_dict_iff] at h
    rw [seen, seenDict_eq_map]
    refine congrArg Value.dict ((List.map_congr_left fun kv hkv => ?_).trans (List.map_id d))
    rw [ih kv hkv (h.2 kv hkv)]
    rfl
  | tuple xs => cases h
  | object s r hash => cases h
  | _ => rfl

theorem lookup_seenDict (d : Dict) (key : String) :
    (seenDict d).lookup key = (d.lookup key).map seen := by
  induction d with
  | nil => rfl
  | cons kv d ih =>
    obtain ⟨k, v⟩ := kv
    simp only [seenDict, List.lookup_cons, ih]
    cases key == k <;> rfl

/-- The keys of every dict in the value are distinct, as those of a Python dict are. -/
def Keyed (v : Value) : Prop := (seen v).isJson = true

theorem keyed_of_isJson {v : Value} (h : v.isJson = true) : Keyed v := by
  rw [Keyed, seen_of_isJson h]
  exact h

theorem keyed_str (s : String) : Keyed (.str s) := rfl

theorem keyed_dict_iff (d : Dict) :
    Keyed (.dict d) ↔ (PyDict.keys d).Nodup ∧ ∀ kv ∈ d, Keyed kv.2 := by
  have hkeys : PyDict.keys (d.map fun kv => (kv.1, seen kv.2)) = PyDict.keys d := by
    simp [PyDict.keys, Function.comp_def]
  rw [Keyed, seen, seenDict_eq_map, Value.isJson_dict_iff, hkeys, List.forall_mem_map]
  exact Iff.rfl

/-- A dict that one key is set in. -/
theorem Keyed.set {d : Dict} (h : Keyed (.dict d)) (key : String) {v : Value} (hv : Keyed v) :
    Keyed (.dict (d.set key v)) := by
  rw [keyed_dict_iff] at h ⊢
  refine ⟨PyDict.nodup_keys_set h.1 key v, ?_⟩
  intro kv hkv
  rcases PyDict.mem_set hkv with rfl | ⟨hold, -⟩
  · exact hv
  · exact h.2 kv hold

/-- A dict that some items are left out of. -/
theorem Keyed.filter {d : Dict} (h : Keyed (.dict d)) (p : String × Value → Bool) :
    Keyed (.dict (d.filter p)) := by
  rw [keyed_dict_iff] at h ⊢
  refine ⟨?_, fun kv hkv => h.2 kv (List.mem_of_mem_filter hkv)⟩
  exact h.1.sublist (List.filter_sublist.map Prod.fst)

theorem loads_dumps_seen {v : Value} (h : Keyed v) : loads (dumps v) = some (seen v) := by
  rw [dumps, ← encode_seen, ← dumps]
  exact loads_dumps h

/-! ## Lines -/

/-- Write a value and end the line. -/
def writeLine (text : String) (v : Value) : String := text ++ (dumps v ++ "\n")

theorem foldl_writeLine (vs : List Value) (text : String) :
    vs.foldl writeLine text = text ++ join "\n" (vs.map dumps ++ [""]) := by
  induction vs generalizing text with
  | nil => simp [join]
  | cons v vs ih =>
    rw [List.foldl_cons, ih, List.map_cons, List.cons_append, join_cons _ _ (by simp), writeLine]
    simp [String.append_assoc]

/-- The lines are the texts of the values. -/
theorem split_lines (vs : List Value) :
    split (vs.foldl writeLine "") '\n' = vs.map dumps ++ [""] := by
  rw [foldl_writeLine, String.empty_append]
  apply split_join rfl (by simp)
  intro s hs
  rcases List.mem_append.1 hs with hs | hs
  · obtain ⟨v, -, rfl⟩ := List.mem_map.1 hs
    rw [dumps, String.toList_ofList]
    exact newline_not_mem_encode v
  · rw [List.mem_singleton.1 hs]
    exact List.not_mem_nil

/-- Each line is read back as what was written on it. -/
theorem loads_lines {vs : List Value} (h : ∀ v ∈ vs, Keyed v) :
    ∃ lines, split (vs.foldl writeLine "") '\n' = lines ++ [""] ∧
      List.Forall₂ (fun v line => loads line = some (seen v)) vs lines := by
  refine ⟨vs.map dumps, split_lines vs, ?_⟩
  rw [List.forall₂_map_right_iff, List.forall₂_same]
  exact fun v hv => loads_dumps_seen (h v hv)

end Json

end AgentCluster.Python
