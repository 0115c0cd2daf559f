import OpenSlidesAutoupdate.Keysbuilder.Builder

/-!
# Runs of `Update`

`loopState rd s bodies n` is the loop of `Update` after `n` passes of its body. A running state
after `n` passes is at round `n` (`round_eq`), and the terminal states are fixed points of `step`,
so `update` gives the same answer for every fuel past the end of the loop (`update_of_le`).

## The keys of a run

Round `r` appends the keys of its `process` map in the order the schedule visits them
(`roundKeys`), and nothing else touches `b.keys` on the way to the break. So the key list of a
successful run is the rounds' keys one after another (`keys_loopState`). A map holds a key once,
so one round appends it at most once; but `process` is cleared between rounds, and a key reached
again in a later round is appended again (`count_keys_eq_rounds`).

## Errors

The deferred closure of `Update` empties the key list when the named result `err` is not `nil`.
Every `return` with an error sets that result, the one inside the loop too, where `err` is
shadowed by `data, err :=`: so each failed round ends `Update` with an empty key list. A
successful run rebuilds the list from scratch (`b.keys = b.keys[:0]`), so it does not depend on
the keys an earlier call left behind.

An error comes from one round (`update_error_source`): from its `RestrictedData` call, or from
the first relation field of its second loop whose value the data rejects.
-/

namespace Keysbuilder

section Run

variable (rd : RestrictedData) (s : Schedule) (bodies : List Body)

/-- The loop of `Update` after `n` passes of its body. -/
def loopState (n : Nat) : LoopState := (step rd s)^[n] (start s bodies)

@[simp] theorem loopState_zero : loopState rd s bodies 0 = start s bodies := rfl

theorem loopState_succ (n : Nat) :
    loopState rd s bodies (n + 1) = step rd s (loopState rd s bodies n) :=
  Function.iterate_succ_apply' _ _ _

theorem update_eq (b : Builder) (fuel : Nat) :
    b.update rd s fuel = (loopState rd s b.bodies fuel).result b := rfl

/-- The keys round `r` appends to `b.keys`: those of its `process` map, in iteration order; none
once the loop has ended. -/
def roundKeys (r : Nat) : List Key :=
  match loopState rd s bodies r with
  | .running r process _ => (s.process r process.entries).map Sigma.fst
  | _ => []

variable {rd s bodies}

/-- After `n` passes a running loop is at round `n`. -/
theorem round_eq {n r : Nat} {process : DescriptionMap} {keys : List Key}
    (h : loopState rd s bodies n = .running r process keys) : r = n := by
  induction n generalizing r process keys with
  | zero =>
    simp only [loopState_zero, start, LoopState.running.injEq] at h
    exact h.1.symm
  | succ n ih =>
    rw [loopState_succ] at h
    obtain ⟨r, process, keys, hn, rfl, -⟩ := step_eq_running h
    rw [ih hn]

theorem loopState_add_of_done {n : Nat} {keys : List Key}
    (h : loopState rd s bodies n = .done keys) (m : Nat) :
    loopState rd s bodies (n + m) = .done keys := by
  induction m with
  | zero => exact h
  | succ m ih => rw [← Nat.add_assoc, loopState_succ, ih, step_done]

theorem loopState_add_of_failed {n : Nat} {err : Error}
    (h : loopState rd s bodies n = .failed err) (m : Nat) :
    loopState rd s bodies (n + m) = .failed err := by
  induction m with
  | zero => exact h
  | succ m ih => rw [← Nat.add_assoc, loopState_succ, ih, step_failed]

/-- Once `Update` has returned within some fuel, more fuel returns the same. -/
theorem update_of_le {b : Builder} {fuel fuel' : Nat} {res : Builder × Option Error}
    (h : b.update rd s fuel = some res) (hle : fuel ≤ fuel') : b.update rd s fuel' = some res := by
  obtain ⟨m, rfl⟩ := Nat.exists_eq_add_of_le hle
  rw [update_eq] at h ⊢
  cases hs : loopState rd s b.bodies fuel with
  | running => rw [hs] at h; cases h
  | done keys => rw [loopState_add_of_done hs, ← hs, h]
  | failed err => rw [loopState_add_of_failed hs, ← hs, h]

/-- `Update` changes only the keys of the builder. -/
theorem bodies_of_update {b b' : Builder} {fuel : Nat} {err : Option Error}
    (h : b.update rd s fuel = some (b', err)) : b'.bodies = b.bodies := by
  rw [update_eq] at h
  cases hs : loopState rd s b.bodies fuel <;> rw [hs] at h <;>
    simp only [LoopState.result, reduceCtorEq, Option.some.injEq, Prod.mk.injEq] at h <;>
    rw [← h.1]

theorem loopState_of_update_ok {b b' : Builder} {fuel : Nat}
    (h : b.update rd s fuel = some (b', none)) :
    loopState rd s b.bodies fuel = .done b'.keys ∧ b' = { b with keys := b'.keys } := by
  rw [update_eq] at h
  cases hs : loopState rd s b.bodies fuel <;> rw [hs] at h <;>
    simp only [LoopState.result, Option.some.injEq, Prod.mk.injEq, reduceCtorEq, and_false] at h
  obtain ⟨rfl, -⟩ := h
  exact ⟨rfl, rfl⟩

/-! ## The keys of a run -/

/-- The key list of a loop that has not failed is the keys of its rounds so far. -/
theorem keys_loopState (n : Nat) (h : ∀ err, loopState rd s bodies n ≠ .failed err) :
    (loopState rd s bodies n).keys = (List.range n).flatMap (roundKeys rd s bodies) := by
  induction n with
  | zero => rfl
  | succ n ih =>
    rw [loopState_succ] at h ⊢
    rw [List.range_succ, List.flatMap_append, List.flatMap_singleton]
    cases hn : loopState rd s bodies n with
    | running r process keys =>
      obtain rfl := round_eq hn
      rw [hn] at h ih
      rw [keys_step_running h, ← ih (by simp), roundKeys, hn]
      rfl
    | done keys =>
      rw [hn] at ih
      rw [step_done, ← ih (by simp), roundKeys, hn, List.append_nil]
    | failed err => rw [hn] at h; exact absurd rfl (h err)

/-- The keys of a successful `Update` are those of its rounds, one round after another. -/
theorem keys_of_update_ok {b b' : Builder} {fuel : Nat} (h : b.update rd s fuel = some (b', none)) :
    b'.keys = (List.range fuel).flatMap (roundKeys rd s b.bodies) := by
  have hdone := (loopState_of_update_ok h).1
  simpa only [hdone] using @keys_loopState rd s b.bodies fuel (by simp [hdone])

/-- A round appends each of its keys once. -/
theorem roundKeys_nodup (r : Nat) : (roundKeys rd s bodies r).Nodup := by
  unfold roundKeys
  split
  · rename_i process _ _
    exact ((s.process_perm _ _).map Sigma.fst).nodup_iff.mpr process.keys_nodup
  · exact List.nodup_nil

/-- Counting a key in the concatenation of duplicate-free lists counts the lists holding it. -/
theorem count_flatMap_of_nodup {f : Nat → List Key} (hf : ∀ r, (f r).Nodup) (k : Key) :
    ∀ l : List Nat, (l.flatMap f).count k = (l.filter fun r ↦ k ∈ f r).length
  | [] => rfl
  | r :: l => by
    rw [List.flatMap_cons, List.count_append, count_flatMap_of_nodup hf k l,
      List.count_eq_of_nodup (hf r), List.filter_cons]
    by_cases hk : k ∈ f r <;> simp [hk, Nat.add_comm]

/-- **Keys are listed once per round.** After a successful `Update`, `Keys()` holds a key as
many times as there were rounds whose `process` map held it. -/
theorem count_keys_eq_rounds {b b' : Builder} {fuel : Nat}
    (h : b.update rd s fuel = some (b', none)) (k : Key) :
    b'.keys.count k = ((List.range fuel).filter fun r ↦ k ∈ roundKeys rd s b.bodies r).length := by
  rw [keys_of_update_ok h]
  exact count_flatMap_of_nodup roundKeys_nodup k _

end Run

/-- A request that observes `motion/2/title` directly and through `motion/1/parent_id`. -/
def parentRequest : List Body :=
  [⟨[("motion/1", [("parent_id", some (.relation "motion" [("title", none)]))]),
    ("motion/2", [("title", none)])]⟩]

/-- Data in which `motion/1/parent_id` points at `motion/2`. -/
def parentData : Data := fun k ↦ if k = "motion/1/parent_id" then some (.string "motion/2") else none

theorem count_keys_eq_rounds_parent :
    ∃ b', ({ bodies := parentRequest, keys := [] } : Builder).update (answering parentData)
        .inOrder 2 = some (b', none) ∧
      b'.keys.count "motion/2/title" = ((List.range 2).filter fun r ↦
        "motion/2/title" ∈ roundKeys (answering parentData) .inOrder parentRequest r).length := by
  obtain ⟨b', h⟩ : ∃ b', ({ bodies := parentRequest, keys := [] } : Builder).update
      (answering parentData) .inOrder 2 = some (b', none) := ⟨_, rfl⟩
  exact ⟨b', h, count_keys_eq_rounds h _⟩

/-- **Keys repeat across rounds.** The seed key `motion/2/title`, reached again in the next round
through `motion/1/parent_id = "motion/2"`, is listed twice. -/
theorem keys_dup_across_rounds :
    ∃ b', ({ bodies := parentRequest, keys := [] } : Builder).update (answering parentData)
      .inOrder 2 = some (b', none) ∧ b'.keys.count "motion/2/title" = 2 :=
  ⟨_, rfl, by decide⟩

section Errors

variable {rd : RestrictedData} {s : Schedule}

/-! ## Errors -/

theorem loopState_of_update_error {b b' : Builder} {fuel : Nat} {err : Error}
    (h : b.update rd s fuel = some (b', some err)) :
    loopState rd s b.bodies fuel = .failed err ∧ b' = { b with keys := [] } := by
  rw [update_eq] at h
  cases hs : loopState rd s b.bodies fuel <;> rw [hs] at h <;>
    simp only [LoopState.result, Option.some.injEq, Prod.mk.injEq, reduceCtorEq, and_false,
      false_and] at h
  obtain ⟨rfl, rfl⟩ := h
  exact ⟨rfl, rfl⟩

/-- A failed loop failed in a round: a running round whose pass returned the error. -/
theorem exists_round_of_failed {bodies : List Body} {n : Nat} {err : Error}
    (h : loopState rd s bodies n = .failed err) :
    ∃ r < n, ∃ process keys, loopState rd s bodies r = .running r process keys ∧
      step rd s (.running r process keys) = .failed err := by
  induction n with
  | zero => cases h
  | succ n ih =>
    rw [loopState_succ] at h
    cases hn : loopState rd s bodies n with
    | running r process keys =>
      obtain rfl := round_eq hn
      rw [hn] at h
      exact ⟨r, Nat.lt_succ_self r, process, keys, hn, h⟩
    | done keys => rw [hn, step_done] at h; cases h
    | failed err' =>
      rw [hn, step_failed] at h
      obtain ⟨r, hr, rest⟩ := ih (h ▸ hn)
      exact ⟨r, Nat.lt_succ_of_lt hr, rest⟩

/-- `err` is the error of round `r` at `process`: the round has relation fields, and `err` is the
error of its `RestrictedData` call, wrapped as `load needed keys`, or comes from a relation field
of the round whose value the data of that call rejects, a type error as a `ValueError` naming the
field and both types, any other error of the description as it is. -/
def RoundError (rd : RestrictedData) (s : Schedule) (r : Nat) (process : DescriptionMap)
    (err : Error) : Prop :=
  relations (s.process r process.entries) ≠ [] ∧
    ((∃ msg, rd r ((relations (s.process r process.entries)).map Prod.fst) = .error msg ∧
        err = .wrap "load needed keys" (.restrictedData msg)) ∨
      ∃ data, rd r ((relations (s.process r process.entries)).map Prod.fst) = .ok data ∧
        ∃ key d value, ⟨key, some d⟩ ∈ process.entries ∧ data key = some value ∧
          ((∃ got expect, d.keys value = .error (.unmarshalType got expect) ∧
              err = .value key got expect) ∨
            ∃ e, d.keys value = .error e ∧ (∀ got expect, e ≠ .unmarshalType got expect) ∧
              err = .keys e))

/-- **Where the errors of `Update` come from.** An error of `Update` is the error of one of its
rounds, `r < fuel`, in the sense of `RoundError`. -/
theorem update_error_source {b b' : Builder} {fuel : Nat} {err : Error}
    (h : b.update rd s fuel = some (b', some err)) :
    ∃ r < fuel, ∃ process keys, loopState rd s b.bodies r = .running r process keys ∧
      RoundError rd s r process err := by
  obtain ⟨r, hr, process, keys, hrun, hstep⟩ :=
    exists_round_of_failed (loopState_of_update_error h).1
  refine ⟨r, hr, process, keys, hrun, ?_⟩
  rcases step_eq_failed hstep with h | ⟨_, _, _, he, hne, hsrc⟩
  · cases h
  · cases he
    refine ⟨hne, hsrc.imp_right fun ⟨data, hd, hx⟩ ↦ ⟨data, hd, ?_⟩⟩
    obtain ⟨⟨key, d⟩, he, value, hv, hsrc⟩ := expand_eq_error hx
    exact ⟨key, d, value, mem_processed_iff.mp he, hv, hsrc⟩

/-- **Errors empty the key list; success forgets the past.** Whatever keys the builder held
before, a round whose `RestrictedData` call fails or whose data rejects a relation makes `Update`
return an error with `Keys()` empty, any error leaves `Keys()` empty, and a successful `Update`
ends with the keys that `newBuilder` computes on the same bodies, data and iteration orders. -/
theorem update_error_empties_keys (b : Builder) (rd : RestrictedData) (s : Schedule) :
    (∀ r process keys, loopState rd s b.bodies r = .running r process keys →
      RoundFails rd s r process → ∀ fuel, r < fuel →
        ∃ err, b.update rd s fuel = some ({ b with keys := [] }, some err)) ∧
    (∀ fuel b' err, b.update rd s fuel = some (b', some err) → b'.keys = []) ∧
    (∀ fuel b', b.update rd s fuel = some (b', none) →
      ∃ b'', newBuilder rd s fuel b.bodies = some (.ok b'') ∧ b''.keys = b'.keys) := by
  refine ⟨fun r process keys hr hfail fuel hlt ↦ ?_, fun fuel b' err h ↦ ?_, fun fuel b' h ↦ ?_⟩
  · obtain ⟨err, hstep⟩ := @step_running_of_roundFails rd s r process keys hfail
    have hfailed : loopState rd s b.bodies (r + 1) = .failed err := by rw [loopState_succ, hr, hstep]
    obtain ⟨m, rfl⟩ := Nat.exists_eq_add_of_le hlt
    exact ⟨err, by rw [update_eq, loopState_add_of_failed hfailed]; rfl⟩
  · rw [(loopState_of_update_error h).2]
  · have hdone := (loopState_of_update_ok h).1
    refine ⟨{ bodies := b.bodies, keys := b'.keys }, ?_, rfl⟩
    simp only [newBuilder, update_eq, hdone]
    rfl

end Errors

/-- A request for the tags of `motion/5`, through the relation list `title_ids`. -/
def titleIdsRequest : List Body :=
  [⟨[("motion/5", [("title_ids", some (.relationList "tag" [("name", none)]))])]⟩]

/-- Data in which `motion/5/title_ids` is a number, not a list. -/
def titleIdsData : Data := fun k ↦ if k = "motion/5/title_ids" then some (.number 42) else none

theorem update_error_source_title_ids :
    ∃ b' err, ({ bodies := titleIdsRequest, keys := [] } : Builder).update
        (answering titleIdsData) .inOrder 1 = some (b', some err) ∧
      err = .value "motion/5/title_ids" "number" "list" ∧
      ∃ r < 1, ∃ process keys, loopState (answering titleIdsData) .inOrder titleIdsRequest r =
        .running r process keys ∧ RoundError (answering titleIdsData) .inOrder r process err := by
  obtain ⟨b', err, h, he⟩ : ∃ b' err, ({ bodies := titleIdsRequest, keys := [] } : Builder).update
      (answering titleIdsData) .inOrder 1 = some (b', some err) ∧
      err = .value "motion/5/title_ids" "number" "list" := ⟨_, _, rfl, rfl⟩
  exact ⟨b', err, h, he, update_error_source h⟩

end Keysbuilder
