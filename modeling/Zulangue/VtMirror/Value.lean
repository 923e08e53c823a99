import Mathlib.Data.String.Basic
import Zulangue.Lib.KeyMap

/-!
# JSON values of the application state

`vt-mirror/src/value.rs`. A state is a `serde_json::Value`; objects are `BTreeMap`s, so a
well-formed value keeps the keys of every object in ascending order.
-/

namespace Zulangue.VtMirror

open Zulangue.Lib

/-- `serde_json::Number`: an integer of the `i64` and `u64` ranges, or a finite `f64`,
which is given as the number it denotes. -/
inductive Number where
  | int (i : Int)
  | float (x : Rat)
  deriving DecidableEq

/-- The integer nearest to `i` with 53 significant bits, ties to even. -/
def roundF64 (i : Int) : Int :=
  let magnitude := i.natAbs
  let bits := magnitude.log2 + 1
  if bits ≤ 53 then i
  else
    let unit := 1 <<< (bits - 53)
    let quotient := magnitude / unit
    let twice := 2 * (magnitude % unit)
    let rounded :=
      if unit < twice ∨ (twice = unit ∧ quotient % 2 = 1) then quotient + 1 else quotient
    i.sign * (rounded * unit : Nat)

def Number.asF64 : Number → Rat
  | .int i => roundF64 i
  | .float x => x

inductive Value where
  | null
  | bool (b : Bool)
  | num (n : Number)
  | str (s : String)
  | arr (items : List Value)
  | obj (entries : List (String × Value))

namespace Value

def isObject : Value → Bool
  | .obj _ => true
  | _ => false

def isArray : Value → Bool
  | .arr _ => true
  | _ => false

def isString : Value → Bool
  | .str _ => true
  | _ => false

def isNumber : Value → Bool
  | .num _ => true
  | _ => false

def isBoolean : Value → Bool
  | .bool _ => true
  | _ => false

/-- `Value::get` with a string: only objects answer. -/
def get (key : String) : Value → Option Value
  | .obj entries => KeyMap.get key entries
  | _ => none

def asStr : Value → Option String
  | .str s => some s
  | _ => none

def asArray : Value → Option (List Value)
  | .arr items => some items
  | _ => none

def asObject : Value → Option (List (String × Value))
  | .obj entries => some entries
  | _ => none

/-- `value[key] = new`. `null` becomes an object first; on anything else that is no object
the source panics, which is `none` here. -/
def setIndex (value : Value) (key : String) (new : Value) : Option Value :=
  match value with
  | .obj entries => some (.obj (KeyMap.insert key new entries))
  | .null => some (.obj [(key, new)])
  | _ => none

mutual

/-- Equality with numbers compared as `f64`. -/
def deepEqual : Value → Value → Bool
  | .num x, .num y => x.asF64 = y.asF64
  | .arr xs, .arr ys => deepEqualItems xs ys
  | .obj xs, .obj ys => xs.length == ys.length && deepEqualEntries xs ys
  | .null, .null => true
  | .bool a, .bool b => a == b
  | .str a, .str b => a == b
  | _, _ => false

def deepEqualItems : List Value → List Value → Bool
  | [], [] => true
  | x :: xs, y :: ys => deepEqual x y && deepEqualItems xs ys
  | _, _ => false

def deepEqualEntries : List (String × Value) → List (String × Value) → Bool
  | [], _ => true
  | (key, x) :: xs, ys =>
    (match KeyMap.get key ys with
      | some y => deepEqual x y
      | none => false) && deepEqualEntries xs ys

end

mutual

/-- Every object inside has ascending keys. -/
def WF : Value → Prop
  | .arr items => WFItems items
  | .obj entries => KeyMap.Sorted entries ∧ WFEntries entries
  | _ => True

def WFItems : List Value → Prop
  | [] => True
  | item :: items => WF item ∧ WFItems items

def WFEntries : List (String × Value) → Prop
  | [] => True
  | (_, value) :: entries => WF value ∧ WFEntries entries

end

mutual

/-- No number inside: on such values `deepEqual` is equality. -/
def NumberFree : Value → Prop
  | .num _ => False
  | .arr items => NumberFreeItems items
  | .obj entries => NumberFreeEntries entries
  | _ => True

def NumberFreeItems : List Value → Prop
  | [] => True
  | item :: items => NumberFree item ∧ NumberFreeItems items

def NumberFreeEntries : List (String × Value) → Prop
  | [] => True
  | (_, value) :: entries => NumberFree value ∧ NumberFreeEntries entries

end

mutual

/-- How deep containers nest. -/
def depth : Value → Nat
  | .arr items => depthItems items + 1
  | .obj entries => depthEntries entries + 1
  | _ => 0

def depthItems : List Value → Nat
  | [] => 0
  | item :: items => max (depth item) (depthItems items)

def depthEntries : List (String × Value) → Nat
  | [] => 0
  | (_, value) :: entries => max (depth value) (depthEntries entries)

end

theorem wfItems_iff {items : List Value} : WFItems items ↔ ∀ item ∈ items, item.WF := by
  induction items with
  | nil => simp [WFItems]
  | cons item items ih => simp [WFItems, ih]

theorem wfEntries_iff {entries : List (String × Value)} :
    WFEntries entries ↔ ∀ entry ∈ entries, entry.2.WF := by
  induction entries with
  | nil => simp [WFEntries]
  | cons entry entries ih => simp [WFEntries, ih]

theorem wf_arr_iff {items : List Value} : (Value.arr items).WF ↔ ∀ item ∈ items, item.WF :=
  wfItems_iff

theorem wf_obj_iff {entries : List (String × Value)} :
    (Value.obj entries).WF ↔ KeyMap.Sorted entries ∧ ∀ entry ∈ entries, entry.2.WF := by
  rw [← wfEntries_iff]
  exact Iff.rfl

theorem wf_str (s : String) : (Value.str s).WF := trivial

theorem WF.get {v w : Value} (h : v.WF) {key : String} (hget : v.get key = some w) : w.WF := by
  cases v with
  | obj entries => exact (wf_obj_iff.mp h).2 _ (KeyMap.mem_of_get hget)
  | _ => cases hget

theorem depth_lt_of_mem {items : List Value} {item : Value} (h : item ∈ items) :
    item.depth < (Value.arr items).depth := by
  have hle : item.depth ≤ depthItems items := by
    induction items with
    | nil => cases h
    | cons first rest ih =>
      rcases List.mem_cons.mp h with rfl | hrest
      · exact Nat.le_max_left _ _
      · exact Nat.le_trans (ih hrest) (Nat.le_max_right _ _)
  simp only [depth]
  omega

theorem depth_lt_of_mem_entries {entries : List (String × Value)} {entry : String × Value}
    (h : entry ∈ entries) : entry.2.depth < (Value.obj entries).depth := by
  have hle : entry.2.depth ≤ depthEntries entries := by
    induction entries with
    | nil => cases h
    | cons first rest ih =>
      rcases List.mem_cons.mp h with rfl | hrest
      · exact Nat.le_max_left _ _
      · exact Nat.le_trans (ih hrest) (Nat.le_max_right _ _)
  simp only [depth]
  omega

mutual

theorem deepEqual_refl : ∀ {v : Value}, v.WF → deepEqual v v = true
  | .null, _ => rfl
  | .bool _, _ => by simp [deepEqual]
  | .num _, _ => by simp [deepEqual]
  | .str _, _ => by simp [deepEqual]
  | .arr _, h => deepEqualItems_refl (show WFItems _ from h)
  | .obj entries, h => by
    have hentries : deepEqualEntries entries entries = true :=
      deepEqualEntries_of_subset h.1 h.2 fun e he => he
    simp [deepEqual, hentries]

theorem deepEqualItems_refl : ∀ {items : List Value}, WFItems items →
    deepEqualItems items items = true
  | [], _ => rfl
  | _ :: _, h => by simp [deepEqualItems, deepEqual_refl h.1, deepEqualItems_refl h.2]

/-- Entries of a sorted object are found in it, equal to themselves. -/
theorem deepEqualEntries_of_subset : ∀ {entries whole : List (String × Value)},
    KeyMap.Sorted whole → WFEntries entries → (∀ e ∈ entries, e ∈ whole) →
    deepEqualEntries entries whole = true
  | [], _, _, _, _ => rfl
  | (key, value) :: rest, whole, hsorted, hwf, hsub => by
    have hget : KeyMap.get key whole = some value :=
      hsorted.get_of_mem (hsub _ List.mem_cons_self)
    have hrest := deepEqualEntries_of_subset hsorted hwf.2
      fun e he => hsub e (List.mem_cons_of_mem _ he)
    simp [deepEqualEntries, hget, deepEqual_refl hwf.1, hrest]

end

theorem deepEqualEntries_get : ∀ {entries other : List (String × Value)},
    deepEqualEntries entries other = true → ∀ {key : String} {v : Value},
    KeyMap.get key entries = some v → ∃ w, KeyMap.get key other = some w ∧ deepEqual v w = true
  | (k, x) :: rest, other, h, key, v, hget => by
    simp only [deepEqualEntries, Bool.and_eq_true] at h
    by_cases hkey : key = k
    · subst hkey
      obtain rfl : x = v := by simpa [KeyMap.get] using hget
      cases hother : KeyMap.get key other with
      | none => simp [hother] at h
      | some w => exact ⟨w, rfl, by simpa [hother] using h.1⟩
    · exact deepEqualEntries_get h.2 (by simpa [KeyMap.get, hkey] using hget)

/-- Equal values answer a field alike. -/
theorem deepEqual_get {v w : Value} (h : deepEqual v w = true) {key : String} {x : Value}
    (hget : v.get key = some x) : ∃ y, w.get key = some y ∧ deepEqual x y = true := by
  cases v with
  | obj entries =>
    cases w with
    | obj other =>
      simp only [deepEqual, Bool.and_eq_true] at h
      exact deepEqualEntries_get h.2 hget
    | _ => simp [deepEqual] at h
  | _ => cases hget

theorem deepEqual_str {s : String} {w : Value} (h : deepEqual (.str s) w = true) :
    w = .str s := by
  cases w with
  | str t =>
    simp only [deepEqual, beq_iff_eq] at h
    rw [h]
  | _ => simp [deepEqual] at h

mutual

/-- Without numbers there is nothing to round. -/
theorem eq_of_deepEqual : ∀ {v w : Value}, v.WF → w.WF → v.NumberFree → deepEqual v w = true →
    v = w
  | .null, w, _, _, _, h => by cases w <;> simp_all [deepEqual]
  | .bool _, w, _, _, _, h => by cases w <;> simp_all [deepEqual]
  | .str _, w, _, _, _, h => (deepEqual_str h).symm
  | .arr items, w, hv, hw, hfree, h => by
    cases w with
    | arr other => rw [eq_of_deepEqualItems hv hw hfree h]
    | _ => simp [deepEqual] at h
  | .obj entries, w, hv, hw, hfree, h => by
    cases w with
    | obj other =>
      simp only [deepEqual, Bool.and_eq_true, beq_iff_eq] at h
      rw [hv.1.eq_of_subset hw.1 h.1 (mem_of_deepEqualEntries hv.2 hw.2 hfree h.2)]
    | _ => simp [deepEqual] at h

theorem eq_of_deepEqualItems : ∀ {items other : List Value}, WFItems items → WFItems other →
    NumberFreeItems items → deepEqualItems items other = true → items = other
  | [], [], _, _, _, _ => rfl
  | [], _ :: _, _, _, _, h => by simp [deepEqualItems] at h
  | _ :: _, [], _, _, _, h => by simp [deepEqualItems] at h
  | _ :: _, _ :: _, hv, hw, hfree, h => by
    simp only [deepEqualItems, Bool.and_eq_true] at h
    rw [eq_of_deepEqual hv.1 hw.1 hfree.1 h.1, eq_of_deepEqualItems hv.2 hw.2 hfree.2 h.2]

theorem mem_of_deepEqualEntries : ∀ {entries other : List (String × Value)},
    WFEntries entries → WFEntries other → NumberFreeEntries entries →
    deepEqualEntries entries other = true → ∀ e ∈ entries, e ∈ other
  | [], _, _, _, _, _, _, he => nomatch he
  | (key, x) :: rest, other, hv, hw, hfree, h, e, he => by
    simp only [deepEqualEntries, Bool.and_eq_true] at h
    obtain ⟨hfirst, hrest⟩ := h
    rcases List.mem_cons.mp he with rfl | hmem
    · cases hget : KeyMap.get key other with
      | none => simp [hget] at hfirst
      | some y =>
        have hmem := KeyMap.mem_of_get hget
        have hy : y.WF := wfEntries_iff.mp hw _ hmem
        rw [eq_of_deepEqual hv.1 hy hfree.1 (by simpa [hget] using hfirst)]
        exact hmem
    · exact mem_of_deepEqualEntries hv.2 hw hfree.2 hrest e hmem

end

end Value

end Zulangue.VtMirror
