import Zulangue.VtMirror.Loro

/-!
# Values as the document stores them

A value is stored as a Loro value and read back as JSON. A number too large for a signed 64-bit
integer comes back as the double it is stored as; otherwise nothing changes.
-/

namespace Zulangue.VtMirror

open Zulangue.Lib

/-- What is read back for a value. -/
def stored (value : Value) : Value := loroToJson (jsonToLoro value)

theorem jsonToLoroItems_eq_map (items : List Value) : jsonToLoroItems items = items.map jsonToLoro := by
  induction items with
  | nil => rfl
  | cons item items ih => simp [jsonToLoroItems, ih]

theorem loroToJsonItems_eq_map (items : List LoroValue) : loroToJsonItems items = items.map loroToJson := by
  induction items with
  | nil => rfl
  | cons item items ih => simp [loroToJsonItems, ih]

theorem jsonToLoroEntries_eq_mapValues (entries : List (String × Value)) :
    jsonToLoroEntries entries = KeyMap.mapValues jsonToLoro entries := by
  induction entries with
  | nil => rfl
  | cons entry entries ih => simp [jsonToLoroEntries, ih]

theorem loroToJsonEntries_eq_mapValues (entries : List (String × LoroValue)) :
    loroToJsonEntries entries = KeyMap.mapValues loroToJson entries := by
  induction entries with
  | nil => rfl
  | cons entry entries ih => simp [loroToJsonEntries, ih]

theorem stored_arr (items : List Value) : stored (.arr items) = .arr (items.map stored) := by
  simp only [stored, jsonToLoro, loroToJson, jsonToLoroItems_eq_map, loroToJsonItems_eq_map, List.map_map]
  rfl

theorem stored_obj {entries : List (String × Value)} (h : KeyMap.Sorted entries) :
    stored (.obj entries) = .obj (KeyMap.mapValues stored entries) := by
  have hloro := KeyMap.sorted_mapValues h jsonToLoro
  have hback := KeyMap.sorted_mapValues hloro loroToJson
  simp only [stored, jsonToLoro, loroToJson, jsonToLoroEntries_eq_mapValues, loroToJsonEntries_eq_mapValues,
    KeyMap.ofList_of_sorted hloro, KeyMap.ofList_of_sorted hback]
  simp [KeyMap.mapValues, stored]

mutual

/-- What is read back is equal to what was stored, numbers compared as doubles. -/
theorem stored_deepEqual : ∀ {value : Value}, value.WF → (stored value).deepEqual value = true
  | .null, _ => rfl
  | .bool b, _ => by simp [stored, jsonToLoro, loroToJson, Value.deepEqual]
  | .str s, _ => by simp [stored, jsonToLoro, loroToJson, Value.deepEqual]
  | .num (.int i), _ => by
    by_cases hle : i ≤ i64Max
    · simp [stored, jsonToLoro, loroToJson, Value.deepEqual, hle]
    · simp [stored, jsonToLoro, loroToJson, Value.deepEqual, hle, Number.asF64]
  | .num (.float x), _ => by simp [stored, jsonToLoro, loroToJson, Value.deepEqual]
  | .arr items, h => by
    rw [stored_arr]
    exact stored_deepEqualItems (show Value.WFItems items from h)
  | .obj entries, h => by
    have hentries := stored_deepEqualEntries h.1 h.2 fun e he => he
    rw [stored_obj h.1, Value.deepEqual, hentries]
    simp [KeyMap.mapValues]

theorem stored_deepEqualItems : ∀ {items : List Value}, Value.WFItems items →
    Value.deepEqualItems (items.map stored) items = true
  | [], _ => rfl
  | _ :: _, h => by
    simp [Value.deepEqualItems, stored_deepEqual h.1, stored_deepEqualItems h.2]

theorem stored_deepEqualEntries : ∀ {entries whole : List (String × Value)}, KeyMap.Sorted whole →
    Value.WFEntries entries → (∀ e ∈ entries, e ∈ whole) →
    Value.deepEqualEntries (KeyMap.mapValues stored entries) whole = true
  | [], _, _, _, _ => rfl
  | (key, value) :: rest, whole, hsorted, hwf, hsub => by
    have hget : KeyMap.get key whole = some value := hsorted.get_of_mem (hsub _ List.mem_cons_self)
    have hrest := stored_deepEqualEntries hsorted hwf.2 fun e he => hsub e (List.mem_cons_of_mem _ he)
    simp [Value.deepEqualEntries, KeyMap.mapValues_cons, hget, stored_deepEqual hwf.1, hrest]

end

mutual

/-- What is read back is stored as before. -/
theorem jsonToLoro_stored : ∀ {value : Value}, value.WF → jsonToLoro (stored value) = jsonToLoro value
  | .null, _ => rfl
  | .bool _, _ => rfl
  | .str _, _ => rfl
  | .num (.int i), _ => by
    by_cases hle : i ≤ i64Max
    · simp [stored, jsonToLoro, loroToJson, hle]
    · simp [stored, jsonToLoro, loroToJson, hle]
  | .num (.float _), _ => rfl
  | .arr items, h => by
    rw [stored_arr, jsonToLoro, jsonToLoro, jsonToLoroItems_stored (show Value.WFItems items from h)]
  | .obj entries, h => by
    rw [stored_obj h.1, jsonToLoro, jsonToLoro, jsonToLoroEntries_stored h.2]

theorem jsonToLoroItems_stored : ∀ {items : List Value}, Value.WFItems items →
    jsonToLoroItems (items.map stored) = jsonToLoroItems items
  | [], _ => rfl
  | _ :: _, h => by
    rw [List.map_cons, jsonToLoroItems, jsonToLoroItems, jsonToLoro_stored h.1, jsonToLoroItems_stored h.2]

theorem jsonToLoroEntries_stored : ∀ {entries : List (String × Value)}, Value.WFEntries entries →
    jsonToLoroEntries (KeyMap.mapValues stored entries) = jsonToLoroEntries entries
  | [], _ => rfl
  | (_, _) :: _, h => by
    rw [KeyMap.mapValues_cons, jsonToLoroEntries, jsonToLoroEntries, jsonToLoro_stored h.1, jsonToLoroEntries_stored h.2]

end

end Zulangue.VtMirror
