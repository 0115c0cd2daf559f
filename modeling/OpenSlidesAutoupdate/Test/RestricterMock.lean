import Mathlib.Data.List.AList

/-!
# The mock restricter

`MockRestricter` stands in for the restricter in tests. `Restrict` answers each requested key from
its `Data` map, and a key the map lacks with a value made up from the key's shape: an error for a
key starting with `error`, `1` for one ending in `_id`, `[1,2]` for one ending in `_ids`, and
`some value` for any other. The first key without an answer ends the loop with an error, and the
map built so far is dropped.

## What it answers

Each key is answered on its own: `Restrict` fails exactly when a requested key fails, and
otherwise holds exactly the requested keys, each with its own answer, whatever the other keys and
their order (`restrict_cases`). The doc comment says that a key starting with `error` throws; the
code looks into `Data` first, so a key in `Data` never does (`fails`).
-/

namespace Test

/-- `MockRestricter`: the values it returns for the keys it knows. -/
structure MockRestricter where
  /-- `Data`. -/
  data : AList fun _ : String ↦ String

namespace MockRestricter

variable (r : MockRestricter)

/-- The answer of `Restrict` for one key: its value in `Data`, or else the value its shape
selects. -/
def answer (key : String) : Except String String :=
  match r.data.lookup key with
  | some v => .ok v
  | none =>
    if key.startsWith "error" then .error "Restricter got an error"
    else if key.endsWith "_id" then .ok "1"
    else if key.endsWith "_ids" then .ok "[1,2]"
    else .ok "some value"

/-- One pass of the loop of `Restrict`: `out[key]` is set to the key's answer, or the error is
returned. -/
def restrictKey (out : AList fun _ : String ↦ String) (key : String) :
    Except String (AList fun _ : String ↦ String) :=
  (r.answer key).map fun v ↦ out.insert key v

/-- `Restrict`, over the keys in order. The context and the user id are not read. -/
def restrict (keys : List String) : Except String (AList fun _ : String ↦ String) :=
  keys.foldlM r.restrictKey ∅

/-- A key `Restrict` fails at: not in `Data`, and starting with `error`. -/
def fails (key : String) : Bool :=
  (r.data.lookup key).isNone && key.startsWith "error"

variable {r}

theorem answer_eq_error {key err : String} :
    r.answer key = .error err ↔ r.fails key = true ∧ err = "Restricter got an error" := by
  unfold answer fails
  cases r.data.lookup key with
  | some v => simp
  | none =>
    by_cases he : key.startsWith "error" = true
    · simp [he, eq_comm]
    · simp only [he, Bool.false_eq_true, if_false, Option.isNone_none, Bool.true_and, false_and,
        iff_false]
      split_ifs <;> simp

theorem fails_eq_false_of_answer {key v : String} (h : r.answer key = .ok v) :
    r.fails key = false := by
  cases hf : r.fails key
  · rfl
  · have := answer_eq_error.mpr ⟨hf, rfl⟩
    rw [h] at this
    cases this

/-- The loop of `Restrict` from any map built so far: it fails with the error of a failing key,
or sets every key to its answer and leaves the other keys of the map alone. -/
theorem foldlM_restrictKey : ∀ (keys : List String) (out₀ : AList fun _ : String ↦ String),
    (keys.foldlM r.restrictKey out₀ = .error "Restricter got an error" ∧
        ∃ key ∈ keys, r.fails key = true) ∨
      ((∀ key ∈ keys, r.fails key = false) ∧ ∃ out, keys.foldlM r.restrictKey out₀ = .ok out ∧
        ∀ k, out.lookup k = if k ∈ keys then (r.answer k).toOption else out₀.lookup k)
  | [], out₀ => .inr ⟨fun _ h ↦ absurd h (List.not_mem_nil _), out₀, rfl, fun _ ↦ by simp⟩
  | key :: keys, out₀ => by
    cases ha : r.answer key with
    | error err =>
      obtain ⟨hf, rfl⟩ := answer_eq_error.mp ha
      have herr : (key :: keys).foldlM r.restrictKey out₀ = .error "Restricter got an error" := by
        rw [List.foldlM_cons, restrictKey, ha]
        rfl
      exact .inl ⟨herr, key, List.mem_cons_self _ _, hf⟩
    | ok v =>
      have hcons : (key :: keys).foldlM r.restrictKey out₀ =
          keys.foldlM r.restrictKey (out₀.insert key v) := by
        rw [List.foldlM_cons, restrictKey, ha]
        rfl
      rw [hcons]
      rcases foldlM_restrictKey keys (out₀.insert key v) with
        ⟨herr, key', hk', hf'⟩ | ⟨hall, out, hout, hlookup⟩
      · exact .inl ⟨herr, key', List.mem_cons_of_mem _ hk', hf'⟩
      refine .inr ⟨List.forall_mem_cons.mpr ⟨fails_eq_false_of_answer ha, hall⟩, out, hout,
        fun k ↦ ?_⟩
      rw [hlookup k]
      by_cases hk : k ∈ keys
      · simp [hk]
      by_cases hkey : k = key
      · subst hkey
        simp [hk, ha, Except.toOption]
      · simp [hk, hkey, AList.lookup_insert_ne hkey]

/-- **The mock answers each key on its own.** `Restrict` fails with `Restricter got an error`
exactly when a requested key fails; otherwise it holds exactly the requested keys, each with its
own answer. -/
theorem restrict_cases (keys : List String) :
    (r.restrict keys = .error "Restricter got an error" ∧ ∃ key ∈ keys, r.fails key = true) ∨
      ((∀ key ∈ keys, r.fails key = false) ∧ ∃ out, r.restrict keys = .ok out ∧
        ∀ k, out.lookup k = if k ∈ keys then (r.answer k).toOption else none) := by
  simpa using foldlM_restrictKey keys ∅

end MockRestricter

end Test
