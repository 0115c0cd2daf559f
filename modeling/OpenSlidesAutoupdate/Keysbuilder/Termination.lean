import OpenSlidesAutoupdate.Keysbuilder.Run

/-!
# `Update` terminates

`Update` has no visited set: a relation value that points back at an object already seen, as in
`motion/1/parent_id = "motion/1"`, is followed again. What stops the loop is the request, not the
data. The entries of `process` in round `r` carry descriptions at relation-nesting depth `r`
(`descriptions_at_depth`): the seed carries the top-level ones, and a relation inserts only its
nested fields. A request of depth `h` has only plain fields at depth `h`, so round `h` has no
relation field and breaks the loop. This holds for every answer of the data provider, cycles in
the data included.
-/

namespace Keysbuilder

section Termination

variable {rd : RestrictedData} {s : Schedule} {bodies : List Body}

theorem seed_descriptions {k : Key} {d : Option FieldDescription}
    (h : ⟨k, d⟩ ∈ (seed s bodies).entries) : d ∈ descriptionsAt bodies 0 :=
  List.mem_map_of_mem Prod.snd ((seed_inserts_perm s bodies).mem_iff.mp (mem_insertAll_empty h))

/-- The descriptions of every running round sit at that round's depth. -/
theorem descriptions_at_depth {n : Nat} {process : DescriptionMap} {keys : List Key}
    (h : loopState rd s bodies n = .running n process keys) :
    ∀ e ∈ process.entries, e.2 ∈ descriptionsAt bodies n := by
  induction n generalizing process keys with
  | zero =>
    simp only [loopState_zero, start, LoopState.running.injEq, true_and] at h
    rintro ⟨k, d⟩ he
    exact seed_descriptions (h.1 ▸ he)
  | succ n ih =>
    rw [loopState_succ] at h
    obtain ⟨r, p, ks, hn, hr, -, data, -, hx⟩ := step_eq_running h
    obtain rfl : n = r := by omega
    rw [(expand_eq_ok_iff.mp hx).2]
    rintro ⟨k', d'⟩ he
    obtain ⟨⟨k, d⟩, hp, hc⟩ := List.mem_flatMap.mp (mem_insertAll_empty he)
    obtain ⟨f, hf, hfd⟩ := mem_fields_of_mem_children hc
    have hd : some d ∈ descriptionsAt bodies n := ih hn _ (mem_processed_iff.mp hp)
    exact List.mem_flatMap.mpr ⟨some d, hd, List.mem_map.mpr ⟨f, hf, hfd⟩⟩

/-- From round `maxDepth` on, a running round has no relation field. -/
theorem relations_eq_nil_of_maxDepth_le {n : Nat} {process : DescriptionMap} {keys : List Key}
    (h : loopState rd s bodies n = .running n process keys) (hn : maxDepth bodies ≤ n) :
    relations (s.process n process.entries) = [] := by
  refine List.eq_nil_iff_forall_not_mem.mpr fun ⟨k, d⟩ hkd ↦ ?_
  have he := (s.process_perm _ _).mem_iff.mp (mem_relations.mp hkd)
  cases eq_none_of_mem_descriptionsAt (descriptions_at_depth h _ he) hn

/-- The loop has ended after `maxDepth + 1` passes. -/
theorem loopState_maxDepth_succ (keys : List Key) (process : DescriptionMap) (r : Nat) :
    loopState rd s bodies (maxDepth bodies + 1) ≠ .running r process keys := by
  intro h
  rw [loopState_succ] at h
  obtain ⟨r', p, ks, hn, -, -, -⟩ := step_eq_running h
  obtain rfl := round_eq hn
  rw [hn, step_running_of_relations_eq_nil (relations_eq_nil_of_maxDepth_le hn le_rfl)] at h
  cases h

/-- The keys round `r` asks `RestrictedData` for; the round makes the call iff there are any. -/
def needed (rd : RestrictedData) (s : Schedule) (bodies : List Body) (r : Nat) : List Key :=
  match loopState rd s bodies r with
  | .running r process _ => (relations (s.process r process.entries)).map Prod.fst
  | _ => []

theorem needed_eq_nil_of_maxDepth_le {r : Nat} (hr : maxDepth bodies ≤ r) :
    needed rd s bodies r = [] := by
  unfold needed
  split
  · rename_i r' process keys h
    obtain rfl := round_eq h
    rw [relations_eq_nil_of_maxDepth_le h hr, List.map_nil]
  · rfl

/-- **`Update` terminates.** For every request and every answer of the data provider, cycles in
the data included: the descriptions of round `r` sit at relation-nesting depth `r` of the
bodies, the loop has returned after at most `maxDepth + 1` rounds with a result that more fuel
does not change, and at most `maxDepth` rounds call `RestrictedData`. -/
theorem update_terminates (b : Builder) (rd : RestrictedData) (s : Schedule) :
    (∀ r process keys, loopState rd s b.bodies r = .running r process keys →
      ∀ e ∈ process.entries, e.2 ∈ descriptionsAt b.bodies r) ∧
    (∃ res, ∀ fuel, maxDepth b.bodies + 1 ≤ fuel → b.update rd s fuel = some res) ∧
    ∀ n, ((List.range n).filter fun r ↦ needed rd s b.bodies r ≠ []).length ≤ maxDepth b.bodies := by
  refine ⟨fun r process keys h ↦ descriptions_at_depth h, ?_, fun n ↦ ?_⟩
  · cases hs : loopState rd s b.bodies (maxDepth b.bodies + 1) with
    | running r process keys => exact absurd hs (loopState_maxDepth_succ keys process r)
    | done keys => exact ⟨_, fun fuel hf ↦ update_of_le (by rw [update_eq, hs]; rfl) hf⟩
    | failed err => exact ⟨_, fun fuel hf ↦ update_of_le (by rw [update_eq, hs]; rfl) hf⟩
  · have hsub : (List.range n).filter (fun r ↦ needed rd s b.bodies r ≠ []) ⊆
        List.range (maxDepth b.bodies) := fun r hr ↦ by
      obtain ⟨-, hne⟩ := List.mem_filter.mp hr
      refine List.mem_range.mpr (Nat.lt_of_not_le fun hle ↦ ?_)
      simp [needed_eq_nil_of_maxDepth_le hle] at hne
    simpa using (List.subperm_of_subset ((List.nodup_range n).filter _) hsub).length_le

/-- `Update` run to its end, which `update_terminates` puts within `maxDepth + 1` rounds: the
builder after the call and the error it returned. -/
def Builder.updateAll (b : Builder) (rd : RestrictedData) (s : Schedule) : Builder × Option Error :=
  (b.update rd s (maxDepth b.bodies + 1)).getD (b, none)

theorem update_maxDepth_succ (b : Builder) :
    b.update rd s (maxDepth b.bodies + 1) = some (b.updateAll rd s) := by
  rw [Builder.updateAll, update_eq]
  cases hs : loopState rd s b.bodies (maxDepth b.bodies + 1) with
  | running r process keys => exact absurd hs (loopState_maxDepth_succ keys process r)
  | done => rfl
  | failed => rfl

theorem bodies_updateAll (b : Builder) : (b.updateAll rd s).1.bodies = b.bodies :=
  bodies_of_update (update_maxDepth_succ b)

/-- A failed `Update` leaves the builder with its bodies and no keys. -/
theorem updateAll_of_error {b : Builder} {b' : Builder} {err : Error}
    (h : b.updateAll rd s = (b', some err)) : b' = { b with keys := [] } :=
  (loopState_of_update_error ((update_maxDepth_succ b).trans (congrArg some h))).2

end Termination

end Keysbuilder
