import OpenSlidesAutoupdate.Keysbuilder.Termination

/-!
# What `Update` reads

`Update` reads the restricted data in one place: the second loop of a round looks up
`data[key]` for each relation field in `processed`, and `processed` holds exactly the keys the
round passed to `RestrictedData` as `needed`. A round without relation fields makes no call at
all. So the result of `Update` depends on the data provider only through its answers at the keys
each round requests: two providers that answer every call of a run alike on those keys, with the
same error or with values that agree there, make `Update` return the same builder and the same
error (`updateAll_of_sameAnswer`).

## Skipping `Update`

A connection reruns `Update` only when a batch announces a relation field its builder observes
(spec, step 4 of `Next`). The frame property is what makes that sound: if none of the keys the
last `Update` requested has changed, a new `Update` over the new data requests the same keys,
reads the same values, and returns the builder it already has (`updateAll_answering_congr`,
`updateAll_idem`).

## Every requested relation is resolved

The loop breaks only at a round without relation fields, so every round that expanded a relation
field is followed by one that appends the keys it inserted. After a successful `Update`, every
relation field that was requested and whose value was accepted has its inserts among the keys
(`updateAll_resolves`), for any data. What coherent data adds, in `Refinement`, is that every
relation field the request observes is requested, and with its own description.
-/

namespace Keysbuilder

/-- Two answers to one `RestrictedData` call for `keys` that `Update` cannot tell apart: the same
error, or data that agree on `keys`. -/
def SameAnswer (keys : List Key) : Except String Data → Except String Data → Prop
  | .error err, .error err' => err = err'
  | .ok data, .ok data' => ∀ k ∈ keys, data k = data' k
  | _, _ => False

/-! ## One round -/

section Round

variable {s : Schedule}

/-- The second loop of a round reads `data` only at the keys of its entries. -/
theorem expand_congr {data data' : Data} {entries : List (Σ _ : Key, FieldDescription)}
    (h : ∀ e ∈ entries, data e.1 = data' e.1) (process : DescriptionMap) :
    expand data entries process = expand data' entries process := by
  induction entries generalizing process with
  | nil => rfl
  | cons e entries ih =>
    obtain ⟨key, d⟩ := e
    have hrest := ih fun e he ↦ h e (List.mem_cons_of_mem _ he)
    simp only [expand, h ⟨key, d⟩ (List.mem_cons_self _ _), hrest]

/-- Every relation field of `processed` is a key of the round's `RestrictedData` call. -/
theorem mem_needed_of_mem_processed {r : Nat} {process : DescriptionMap}
    {e : Σ _ : Key, FieldDescription}
    (he : e ∈ s.processed r (insertAll (relations (s.process r process.entries)) ∅).entries) :
    e.1 ∈ (relations (s.process r process.entries)).map Prod.fst := by
  have hp := (s.process_perm r _).mem_iff.mpr (mem_processed_iff.mp he)
  exact List.mem_map_of_mem Prod.fst (mem_relations.mpr hp)

/-- A round whose call, if it makes one, is answered alike by two providers ends alike. -/
theorem step_running_congr {rd rd' : RestrictedData} {r : Nat} {process : DescriptionMap}
    {keys : List Key}
    (h : (relations (s.process r process.entries)).map Prod.fst ≠ [] →
      SameAnswer ((relations (s.process r process.entries)).map Prod.fst)
        (rd r ((relations (s.process r process.entries)).map Prod.fst))
        (rd' r ((relations (s.process r process.entries)).map Prod.fst))) :
    step rd' s (.running r process keys) = step rd s (.running r process keys) := by
  simp only [step, drain_eq, List.nil_append]
  split_ifs with hnil
  · rfl
  have h := h hnil
  revert h
  cases rd r ((relations (s.process r process.entries)).map Prod.fst) <;>
    cases rd' r ((relations (s.process r process.entries)).map Prod.fst) <;> intro h <;>
    simp only [SameAnswer] at h
  next => rw [h]
  next =>
    dsimp only
    rw [expand_congr fun e he ↦ (h e.1 (mem_needed_of_mem_processed he)).symm]

end Round

/-! ## Runs -/

section Run

variable {s : Schedule} {bodies : List Body}

/-- Two providers that answer every call of the first `n` rounds alike leave the loop in the same
state. -/
theorem loopState_congr {rd rd' : RestrictedData} {n : Nat}
    (h : ∀ r < n, needed rd s bodies r ≠ [] →
      SameAnswer (needed rd s bodies r) (rd r (needed rd s bodies r))
        (rd' r (needed rd s bodies r))) :
    loopState rd' s bodies n = loopState rd s bodies n := by
  induction n with
  | zero => rfl
  | succ n ih =>
    rw [loopState_succ, loopState_succ, ih fun r hr ↦ h r (Nat.lt_succ_of_lt hr)]
    cases hs : loopState rd s bodies n with
    | running r process keys =>
      obtain rfl := round_eq hs
      have hn : needed rd s bodies r = (relations (s.process r process.entries)).map Prod.fst := by
        rw [needed, hs]
      exact step_running_congr (hn ▸ h r (Nat.lt_succ_self r))
    | done => rfl
    | failed => rfl

/-- **`Update` reads only what it requests.** Two data providers that answer every call a run of
`Update` makes alike on the keys of the call, with the same error or with values that agree on
those keys, make `Update` return the same builder and the same error. -/
theorem updateAll_of_sameAnswer (b : Builder) (s : Schedule) {rd rd' : RestrictedData}
    (h : ∀ r, needed rd s b.bodies r ≠ [] →
      SameAnswer (needed rd s b.bodies r) (rd r (needed rd s b.bodies r))
        (rd' r (needed rd s b.bodies r))) :
    b.updateAll rd' s = b.updateAll rd s := by
  rw [Builder.updateAll, Builder.updateAll, update_eq, update_eq,
    loopState_congr fun r _ ↦ h r]

/-- Over data that agrees with `data` at every key `Update` requests over `data`, `Update` returns
what it returns over `data`. -/
theorem updateAll_answering_congr (b : Builder) (s : Schedule) {data data' : Data}
    (h : ∀ r, ∀ k ∈ needed (answering data) s b.bodies r, data' k = data k) :
    b.updateAll (answering data') s = b.updateAll (answering data) s := by
  rw [Builder.updateAll, Builder.updateAll, update_eq, update_eq,
    @loopState_congr s b.bodies (answering data) (answering data') _ fun r _ _ k hk ↦
      (h r k hk).symm]

/-- `Update` reads the bodies of the builder, never its keys. -/
theorem updateAll_eq_of_bodies {rd : RestrictedData} {b b' : Builder} (h : b.bodies = b'.bodies) :
    b.updateAll rd s = b'.updateAll rd s := by
  obtain ⟨bodies, keys⟩ := b
  obtain ⟨bodies', keys'⟩ := b'
  obtain rfl : bodies = bodies' := h
  simp only [Builder.updateAll, update_eq]
  cases hs : loopState rd s bodies (maxDepth bodies + 1) with
  | running r process keys => exact absurd hs (loopState_maxDepth_succ keys process r)
  | done => rfl
  | failed => rfl

/-- Rerunning a successful `Update` on the same answers leaves the builder as it is: `Update`
rebuilds the keys from the bodies alone. -/
theorem updateAll_idem {rd : RestrictedData} {b₀ b : Builder}
    (h : b₀.updateAll rd s = (b, none)) : b.updateAll rd s = (b, none) := by
  have hbodies : b.bodies = b₀.bodies := by rw [← @bodies_updateAll rd s b₀, h]
  rw [Builder.updateAll, update_eq] at h ⊢
  rw [hbodies]
  cases hs : loopState rd s b₀.bodies (maxDepth b₀.bodies + 1) with
  | running r process keys => exact absurd hs (loopState_maxDepth_succ keys process r)
  | done keys =>
    simp only [hs, LoopState.result, Option.getD_some, Prod.mk.injEq, and_true] at h ⊢
    rw [← h]
  | failed err => simp [hs, LoopState.result] at h

/-! ## Every requested relation is resolved -/

/-- A loop still running after `n` passes has `n` below its bound of `maxDepth + 1` rounds. -/
theorem lt_of_loopState_running {rd : RestrictedData} {n r : Nat} {process : DescriptionMap}
    {keys : List Key} (h : loopState rd s bodies n = .running r process keys) :
    n < maxDepth bodies + 1 := by
  refine Nat.lt_of_not_le fun hn ↦ ?_
  obtain ⟨m, rfl⟩ := Nat.exists_eq_add_of_le hn
  cases hs : loopState rd s bodies (maxDepth bodies + 1) with
  | running r' process' keys' => exact loopState_maxDepth_succ keys' process' r' hs
  | done keys' => rw [loopState_add_of_done hs] at h; cases h
  | failed err => rw [loopState_add_of_failed hs] at h; cases h

/-- A successful `Update` never passes through a failed state. -/
theorem loopState_ne_failed {rd : RestrictedData} {b b' : Builder}
    (h : b.updateAll rd s = (b', none)) (n : Nat) (err : Error) :
    loopState rd s b.bodies n ≠ .failed err := by
  intro hn
  have hdone := (loopState_of_update_ok ((update_maxDepth_succ b).trans (congrArg some h))).1
  rcases Nat.le_total n (maxDepth b.bodies + 1) with hle | hle
  · obtain ⟨m, hm⟩ := Nat.exists_eq_add_of_le hle
    rw [hm, loopState_add_of_failed hn] at hdone
    cases hdone
  · obtain ⟨m, rfl⟩ := Nat.exists_eq_add_of_le hle
    rw [loopState_add_of_done hdone] at hn
    cases hn

/-- **Every requested relation is resolved.** After a successful `Update`, every relation field
that a round requested from the data provider and whose value it read and accepted has each key
its description inserts among the keys of the builder: the next round lists them, and a
successful loop always runs that round. -/
theorem updateAll_resolves {rd : RestrictedData} {b b' : Builder}
    (h : b.updateAll rd s = (b', none)) {r : Nat} {process : DescriptionMap} {keys : List Key}
    (hr : loopState rd s b.bodies r = .running r process keys) {k : Key} {d : FieldDescription}
    (hk : ⟨k, some d⟩ ∈ process.entries) {data : Data}
    (hd : rd r (needed rd s b.bodies r) = .ok data) {v : Value} (hv : data k = some v)
    {inserts : List (Key × Option FieldDescription)} (hi : d.keys v = .ok inserts) :
    ∀ p ∈ inserts, p.1 ∈ b'.keys := by
  intro p hp
  have hrel : (k, d) ∈ relations (s.process r process.entries) :=
    mem_relations.mpr ((s.process_perm r _).mem_iff.mpr hk)
  rw [needed, hr] at hd
  -- the pass after round `r` starts round `r + 1`
  have hsucc := loopState_succ rd s b.bodies r
  rw [hr] at hsucc
  cases hs : loopState rd s b.bodies (r + 1) with
  | failed err => exact absurd hs (loopState_ne_failed h _ err)
  | done keys' =>
    rcases step_eq_done (hsucc.symm.trans hs) with he | ⟨_, _, _, he, hnil, -⟩
    · cases he
    · cases he
      exact absurd (hnil ▸ hrel) (List.not_mem_nil _)
  | running r' process' keys' =>
    obtain ⟨_, _, _, he, rfl, -, data', hd', hx⟩ := step_eq_running (hsucc.symm.trans hs)
    cases he
    obtain rfl : data' = data := Except.ok.inj (hd'.symm.trans hd)
    -- the inserts of `k` are keys of the next round's `process`
    have hmem : p.1 ∈ process' := by
      rw [(expand_eq_ok_iff.mp hx).2, mem_insertAll]
      exact .inl (List.mem_map_of_mem Prod.fst (List.mem_flatMap.mpr
        ⟨⟨k, d⟩, mem_processed_iff.mpr hk, by rwa [children_of_ok hv hi]⟩))
    have hround : p.1 ∈ roundKeys rd s b.bodies (r + 1) := by
      rw [roundKeys, hs]
      exact ((s.process_perm _ _).map Sigma.fst).mem_iff.mpr hmem
    rw [keys_of_update_ok ((update_maxDepth_succ b).trans (congrArg some h))]
    exact List.mem_flatMap.mpr ⟨r + 1, List.mem_range.mpr (lt_of_loopState_running hs), hround⟩

end Run

theorem updateAll_resolves_parent :
    ∃ b', ({ bodies := parentRequest, keys := [] } : Builder).updateAll (answering parentData)
      .inOrder = (b', none) ∧ "motion/2/title" ∈ b'.keys := by
  obtain ⟨b', h⟩ : ∃ b', ({ bodies := parentRequest, keys := [] } : Builder).updateAll
      (answering parentData) .inOrder = (b', none) := ⟨_, rfl⟩
  have hk : ⟨"motion/1/parent_id", some (.relation "motion" [("title", none)])⟩ ∈
      (seed .inOrder parentRequest).entries := by
    rw [show (seed .inOrder parentRequest).entries =
      [⟨"motion/2/title", none⟩, ⟨"motion/1/parent_id", some (.relation "motion" [("title", none)])⟩]
        from rfl]
    exact List.mem_cons_of_mem _ (List.mem_singleton_self _)
  have hr : loopState (answering parentData) .inOrder parentRequest 0 =
      .running 0 (seed .inOrder parentRequest) [] := rfl
  exact ⟨b', h, updateAll_resolves h hr hk rfl rfl rfl ("motion/2/title", none)
    (List.mem_singleton_self _)⟩

/-- `parentData` with `motion/2/title` set: a plain field, which no round requests. -/
def parentTitleData : Data := fun k ↦
  if k = "motion/2/title" then some (.string "Motion 2") else parentData k

theorem updateAll_of_sameAnswer_parent :
    (∀ r, needed (answering parentData) .inOrder parentRequest r ≠ [] →
      SameAnswer (needed (answering parentData) .inOrder parentRequest r)
        (answering parentData r (needed (answering parentData) .inOrder parentRequest r))
        (answering parentTitleData r (needed (answering parentData) .inOrder parentRequest r))) ∧
    ({ bodies := parentRequest, keys := [] } : Builder).updateAll (answering parentTitleData)
        .inOrder =
      ({ bodies := parentRequest, keys := [] } : Builder).updateAll (answering parentData)
        .inOrder := by
  refine (fun h ↦ ⟨h, updateAll_of_sameAnswer { bodies := parentRequest, keys := [] } .inOrder h⟩) ?_
  intro r hr
  rcases Nat.lt_or_ge r (maxDepth parentRequest) with hlt | hge
  · obtain rfl : r = 0 := Nat.lt_one_iff.mp hlt
    have hn : needed (answering parentData) .inOrder parentRequest 0 = ["motion/1/parent_id"] :=
      by decide
    intro k hk
    rw [hn, List.mem_singleton] at hk
    subst hk
    rfl
  · exact absurd (needed_eq_nil_of_maxDepth_le hge) hr

end Keysbuilder
