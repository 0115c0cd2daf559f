import OpenSlidesAutoupdate.Keysbuilder.Json
import OpenSlidesAutoupdate.Keysbuilder.Reference

/-!
# `Update` against the level walk

Over data that answers every `RestrictedData` call alike, round `r` of `Update` works on level `r`
of the request, with a Go map in place of the list.

## Soundness

Every entry of `process` in round `r` is a pair of level `r` (`loopState_sound`): the seed holds
top-level pairs, and an entry of the next round was inserted by a relation of this one. So every
key of a successful `Update` is observed, whatever the request, the data and the schedule.

## Refinement

The map keeps one description per key, the one inserted last. On coherent data all the inserts of
a key in one round agree, and `process` holds exactly the pairs of the level. Then the loop and
the level walk move in lockstep (`refines_step`), and every run of `Update`, under every
schedule, refines the same level walk (`refines_loopState`): it ends when the walk ends, alike,
and with the walk's keys up to order. Keys are observed iff `Update` lists them, and the key
multiset does not depend on the iteration orders.

## Where the two differ

Without coherence the later insert of a key wins. A key observed as a relation and as a plain
field in one round, from two bodies, loses the relation's subtree (`update_loses_relation_subtree`);
two relations converging on one collection-id with different nested fields keep whichever the
`processed` loop visits last (`update_keys_depend_on_order`).

## Several bodies

A builder of several bodies observes the union of what its bodies observe. On coherent data the
walk of each body has finished when the walk of all of them has, so `FromJSON` builds a builder
of each body wherever `ManyFromJSON` builds one of all, and its keys are the union of theirs
(`manyFromJSON_keys_union`).
-/

namespace Keysbuilder

section Sound

variable {data : Data} {bodies : List Body} {s : Schedule}

/-- The entries a round inserts are children of the entries it expanded. -/
theorem expand_sound {r : Nat} {process process' : DescriptionMap}
    {L : List (Key × Option FieldDescription)}
    (hmem : ∀ k d, ⟨k, d⟩ ∈ process.entries → (k, d) ∈ L)
    (hx : expand data (s.processed r (insertAll (relations (s.process r process.entries))
      ∅).entries) ∅ = .ok process') {k : Key} {d : Option FieldDescription}
    (h : ⟨k, d⟩ ∈ process'.entries) : (k, d) ∈ L.flatMap (children data) := by
  rw [(expand_eq_ok_iff.mp hx).2] at h
  obtain ⟨⟨k', d'⟩, he, hc⟩ := List.mem_flatMap.mp (mem_insertAll_empty h)
  exact List.mem_flatMap.mpr ⟨_, hmem _ _ (mem_processed_iff.mp he), hc⟩

/-- Every entry of `process` in round `r` is a pair of level `r`. -/
theorem loopState_sound {n : Nat} {process : DescriptionMap} {keys : List Key}
    (h : loopState (answering data) s bodies n = .running n process keys) :
    ∀ k d, ⟨k, d⟩ ∈ process.entries → (k, d) ∈ level data bodies n := by
  induction n generalizing process keys with
  | zero =>
    simp only [loopState_zero, start, LoopState.running.injEq, true_and] at h
    intro k d he
    exact (seed_inserts_perm s bodies).mem_iff.mp
      (mem_insertAll_empty (show ⟨k, d⟩ ∈ (seed s bodies).entries from h.1 ▸ he))
  | succ n ih =>
    rw [loopState_succ] at h
    obtain ⟨r, p, ks, hn, hr, -, _, hd, hx⟩ := step_eq_running h
    obtain rfl : n = r := by omega
    cases hd
    exact fun k d he ↦ expand_sound (ih hn) hx he

/-- Every key of a successful `Update` is observed. -/
theorem observes_of_mem_keys {b b' : Builder} {fuel : Nat}
    (h : b.update (answering data) s fuel = some (b', none)) {k : Key} (hk : k ∈ b'.keys) :
    Observes b.bodies data k := by
  rw [keys_of_update_ok h] at hk
  obtain ⟨r, -, hr⟩ := List.mem_flatMap.mp hk
  unfold roundKeys at hr
  split at hr
  · rename_i r' process _ hs
    obtain rfl := round_eq hs
    obtain ⟨⟨k', d⟩, he, rfl⟩ := List.mem_map.mp hr
    exact observes_iff_mem_level.mpr
      ⟨r', d, loopState_sound hs _ _ ((s.process_perm _ _).mem_iff.mp he)⟩
  · cases hr

end Sound

/-! ## Refinement -/

/-- The loop state of `Update` matches a state of the level walk: at the same round, with exactly
the pairs of the level in `process` and the same keys up to order, or ended alike. -/
def Refines (data : Data) (bodies : List Body) : LoopState → LevelState → Prop
  | .running r process keys, .walking r' keys' =>
    r = r' ∧ (∀ k d, ⟨k, d⟩ ∈ process.entries ↔ (k, d) ∈ level data bodies r) ∧ keys.Perm keys'
  | .done keys, .finished keys' => keys.Perm keys'
  | .failed _, .rejected => True
  | _, _ => False

section Refinement

variable {data : Data} {bodies : List Body} {s : Schedule} {r : Nat} {process : DescriptionMap}
  {L : List (Key × Option FieldDescription)}

/-- A round appends the distinct keys of its level. -/
theorem roundKeys_perm (hmem : ∀ k d, ⟨k, d⟩ ∈ process.entries ↔ (k, d) ∈ L) :
    ((s.process r process.entries).map Sigma.fst).Perm (L.map Prod.fst).dedup := by
  refine (List.perm_ext_iff_of_nodup
    (((s.process_perm _ _).map Sigma.fst).nodup_iff.mpr process.keys_nodup)
    (List.nodup_dedup _)).mpr fun k ↦ ?_
  simp only [List.mem_dedup, List.mem_map, (s.process_perm _ _).mem_iff]
  constructor
  · rintro ⟨⟨k, d⟩, he, rfl⟩
    exact ⟨(k, d), (hmem k d).mp he, rfl⟩
  · rintro ⟨⟨k, d⟩, he, rfl⟩
    exact ⟨⟨k, d⟩, (hmem k d).mpr he, rfl⟩

/-- A round has no relation field iff its level has none. -/
theorem relations_eq_nil_iff (hmem : ∀ k d, ⟨k, d⟩ ∈ process.entries ↔ (k, d) ∈ L) :
    relations (s.process r process.entries) = [] ↔ L.all (·.2.isNone) = true := by
  simp only [List.eq_nil_iff_forall_not_mem, List.all_eq_true, Prod.forall]
  constructor
  · intro h k d hd
    cases d with
    | none => rfl
    | some d => exact absurd (mem_relations.mpr ((s.process_perm _ _).mem_iff.mpr
        ((hmem k _).mpr hd))) (h k d)
  · intro h k d hd
    have := h k (some d) ((hmem k _).mp ((s.process_perm _ _).mem_iff.mp (mem_relations.mp hd)))
    cases this

theorem rejected_eq_true_iff {k : Key} {d : FieldDescription} :
    rejected data (k, some d) = true ↔ Rejects data k d := by
  cases hv : data k with
  | none => simp [rejected, Rejects, hv]
  | some value => cases hk : d.keys value <;> simp [rejected, Rejects, hv, hk]

/-- A round rejects a value iff its level does. -/
theorem rejects_iff_any (hmem : ∀ k d, ⟨k, d⟩ ∈ process.entries ↔ (k, d) ∈ L) :
    (∃ e ∈ s.processed r (insertAll (relations (s.process r process.entries)) ∅).entries,
      Rejects data e.1 e.2) ↔ L.any (rejected data) = true := by
  simp only [List.any_eq_true]
  constructor
  · rintro ⟨⟨k, d⟩, he, hr⟩
    exact ⟨(k, some d), (hmem k _).mp (mem_processed_iff.mp he), rejected_eq_true_iff.mpr hr⟩
  · rintro ⟨⟨k, _ | d⟩, hp, hr⟩
    · cases hr
    · exact ⟨⟨k, d⟩, mem_processed_iff.mpr ((hmem k _).mpr hp), rejected_eq_true_iff.mp hr⟩

/-- On a coherent next level, a round inserts every pair of it. -/
theorem expand_complete {process' : DescriptionMap}
    (hmem : ∀ k d, ⟨k, d⟩ ∈ process.entries ↔ (k, d) ∈ L)
    (hc : ∀ k d d', (k, d) ∈ L.flatMap (children data) → (k, d') ∈ L.flatMap (children data) →
      d = d')
    (hx : expand data (s.processed r (insertAll (relations (s.process r process.entries))
      ∅).entries) ∅ = .ok process') {k : Key} {d : Option FieldDescription}
    (h : (k, d) ∈ L.flatMap (children data)) : ⟨k, d⟩ ∈ process'.entries := by
  rw [(expand_eq_ok_iff.mp hx).2]
  obtain ⟨⟨k', _ | d'⟩, hp, hch⟩ := List.mem_flatMap.mp h
  · cases hch
  refine AList.mem_lookup_iff.mp (lookup_insertAll_of_unique ?_ fun w hw ↦ ?_)
  · exact List.mem_flatMap.mpr ⟨⟨k', d'⟩, mem_processed_iff.mpr ((hmem k' _).mpr hp), hch⟩
  · obtain ⟨⟨k'', d''⟩, he, hw⟩ := List.mem_flatMap.mp hw
    exact hc k w d (List.mem_flatMap.mpr ⟨_, (hmem _ _).mp (mem_processed_iff.mp he), hw⟩) h

/-- **Lockstep.** On coherent data a pass of the loop body matches a level of the walk. -/
theorem refines_step (hc : Coherent data bodies) {c : LoopState} {a : LevelState}
    (h : Refines data bodies c a) :
    Refines data bodies (step (answering data) s c) (levelStep data bodies a) := by
  rcases c with ⟨r, process, keys⟩ | keys | err <;> rcases a with ⟨r', keys'⟩ | keys' | _ <;>
    try exact (h : False).elim
  · obtain ⟨rfl, hmem, hperm⟩ := h
    have hkeys := hperm.append (roundKeys_perm (s := s) (r := r) hmem)
    by_cases hnil : relations (s.process r process.entries) = []
    · rw [step_running_of_relations_eq_nil hnil]
      simp only [levelStep, (relations_eq_nil_iff hmem).mp hnil, if_true]
      exact hkeys
    · have hall : ¬(level data bodies r).all (·.2.isNone) = true :=
        fun h ↦ hnil ((relations_eq_nil_iff hmem).mpr h)
      by_cases hrej : ∃ e ∈ s.processed r (insertAll (relations (s.process r process.entries))
          ∅).entries, Rejects data e.1 e.2
      · obtain ⟨err, hstep⟩ := @step_running_of_roundFails (answering data) s r process keys
          ⟨hnil, fun _ hd ↦ by cases hd; exact hrej⟩
        simp only [levelStep, hall, (rejects_iff_any hmem).mp hrej, if_false, if_true, hstep]
        exact True.intro
      · have hany : ¬(level data bodies r).any (rejected data) = true :=
          fun h ↦ hrej ((rejects_iff_any hmem).mpr h)
        have hx : expand data (s.processed r (insertAll (relations (s.process r process.entries))
            ∅).entries) ∅ = .ok _ := expand_eq_ok_iff.mpr ⟨fun e he hr ↦ hrej ⟨e, he, hr⟩, rfl⟩
        rw [step_running_of_expand_ok hnil rfl hx]
        simp only [levelStep, hall, hany, if_false]
        refine ⟨rfl, fun k d ↦ ⟨expand_sound (fun k d ↦ (hmem k d).mp) hx, ?_⟩, hkeys⟩
        exact expand_complete hmem (hc (r + 1)) hx
  · exact h
  · exact h

/-- **Refinement.** On coherent data every run of `Update`, under every schedule, refines the
level walk after any number of passes. -/
theorem refines_loopState (hc : Coherent data bodies) (n : Nat) :
    Refines data bodies (loopState (answering data) s bodies n) (levelState data bodies n) := by
  induction n with
  | zero =>
    refine ⟨rfl, fun k d ↦ ⟨fun he ↦ ?_, fun hp ↦ ?_⟩, .refl _⟩
    · exact (seed_inserts_perm s bodies).mem_iff.mp (mem_insertAll_empty he)
    · refine AList.mem_lookup_iff.mp (lookup_insertAll_of_unique
        ((seed_inserts_perm s bodies).mem_iff.mpr hp) fun w hw ↦ ?_)
      exact hc 0 k w d ((seed_inserts_perm s bodies).mem_iff.mp hw) hp
  | succ n ih =>
    rw [loopState_succ, levelState_succ]
    exact refines_step hc ih

theorem refines_done {keys : List Key} {a : LevelState} (h : Refines data bodies (.done keys) a) :
    ∃ keys', a = .finished keys' ∧ keys.Perm keys' := by
  cases a with
  | finished keys' => exact ⟨keys', rfl, h⟩
  | walking => exact h.elim
  | rejected => exact h.elim

theorem refines_finished {c : LoopState} {keys' : List Key}
    (h : Refines data bodies c (.finished keys')) : ∃ keys, c = .done keys ∧ keys.Perm keys' := by
  cases c with
  | done keys => exact ⟨keys, rfl, h⟩
  | running => exact h.elim
  | failed => exact h.elim

/-- On coherent data a successful `Update` lists exactly the observed keys. -/
theorem mem_keys_iff_observes {b b' : Builder} {fuel : Nat} (hc : Coherent data b.bodies)
    (h : b.update (answering data) s fuel = some (b', none)) {k : Key} :
    k ∈ b'.keys ↔ Observes b.bodies data k := by
  refine ⟨observes_of_mem_keys h, fun hk ↦ ?_⟩
  have href := @refines_loopState data b.bodies s hc fuel
  rw [(loopState_of_update_ok h).1] at href
  obtain ⟨keys', ha, hperm⟩ := refines_done href
  exact hperm.mem_iff.mpr ((mem_keys_of_levelState_finished ha).mpr (observes_iff_mem_level.mp hk))

end Refinement

/-! ## The keys of a successful `Update` -/

section Keys

variable {b b' : Builder} {data : Data} {s : Schedule} {fuel : Nat}

/-- **`Update` lists the observed keys.** Every key of a successful `Update` is observed by the
tree walk of the request; on coherent data every observed key is listed, and then a builder of
several bodies lists the union of what the single bodies observe (`observes_iff_exists_body`). -/
theorem update_keys_observed (h : b.update (answering data) s fuel = some (b', none)) :
    (∀ k ∈ b'.keys, Observes b.bodies data k) ∧
      (Coherent data b.bodies → ∀ k, Observes b.bodies data k → k ∈ b'.keys) := by
  exact ⟨fun k hk ↦ observes_of_mem_keys h hk, fun hc k ↦ (mem_keys_iff_observes hc h).mpr⟩

theorem update_keys_observed_parent :
    ∃ b', ({ bodies := parentRequest, keys := [] } : Builder).update (answering parentData)
        .inOrder 2 = some (b', none) ∧ Coherent parentData parentRequest ∧
      (∀ k ∈ b'.keys, Observes parentRequest parentData k) ∧
      ∀ k, Observes parentRequest parentData k → k ∈ b'.keys := by
  obtain ⟨b', h⟩ : ∃ b', ({ bodies := parentRequest, keys := [] } : Builder).update
      (answering parentData) .inOrder 2 = some (b', none) := ⟨_, rfl⟩
  have hc : Coherent parentData parentRequest := coherent_of_levels (n := 1) (by decide) rfl
  exact ⟨b', h, hc, (update_keys_observed h).1, (update_keys_observed h).2 hc⟩

/-- A request naming `motion/1/parent_ids` as a relation list in one body and as a plain field in
another. -/
def conflictRequest : List Body :=
  [⟨[("motion/1", [("parent_ids", some (.relationList "motion" [("title", none)]))])]⟩,
    ⟨[("motion/1", [("parent_ids", none)])]⟩]

/-- Data in which `motion/1/parent_ids` lists `motion/2`. -/
def conflictData : Data := fun k ↦
  if k = "motion/1/parent_ids" then some (.array [.number 2]) else none

/-- **A relation subtree is lost.** The second body's plain `motion/1/parent_ids` replaces the
first body's relation in `process`, so `motion/2/title`, observed through the first body, is not
listed. -/
theorem update_loses_relation_subtree :
    ∃ b', ({ bodies := conflictRequest, keys := [] } : Builder).update (answering conflictData)
        .inOrder 2 = some (b', none) ∧
      Observes conflictRequest conflictData "motion/2/title" ∧ "motion/2/title" ∉ b'.keys :=
  ⟨{ bodies := conflictRequest, keys := ["motion/1/parent_ids"] }, rfl,
    ⟨_, List.mem_cons_self _ _, .child (List.mem_singleton.mpr rfl) (.here _ _)⟩, by decide⟩

/-- **The key multiset does not depend on the iteration orders**, on coherent data: if `Update`
succeeds within `fuel` rounds under one schedule, it succeeds within `fuel` rounds under every
other, with the same keys up to order. -/
theorem update_keys_perm_of_coherent (hc : Coherent data b.bodies)
    (h : b.update (answering data) s fuel = some (b', none)) (s' : Schedule) :
    ∃ b'', b.update (answering data) s' fuel = some (b'', none) ∧ b''.keys.Perm b'.keys := by
  have href := @refines_loopState data b.bodies s hc fuel
  rw [(loopState_of_update_ok h).1] at href
  obtain ⟨keys', ha, hperm⟩ := refines_done href
  have href' := @refines_loopState data b.bodies s' hc fuel
  rw [ha] at href'
  obtain ⟨keys, hs', hperm'⟩ := refines_finished href'
  exact ⟨{ b with keys }, by rw [update_eq, hs']; rfl, hperm'.trans hperm.symm⟩

/-- Every map visited in the order of its entries, except `processed`, visited backwards. -/
def Schedule.processedReversed : Schedule where
  body _ l := l
  process _ l := l
  processed _ l := l.reverse
  body_perm _ _ := .refl _
  process_perm _ _ := .refl _
  processed_perm _ l := List.reverse_perm l

theorem update_keys_perm_parent :
    ∃ b', ({ bodies := parentRequest, keys := [] } : Builder).update (answering parentData)
        .inOrder 2 = some (b', none) ∧
      ∃ b'', ({ bodies := parentRequest, keys := [] } : Builder).update (answering parentData)
        .processedReversed 2 = some (b'', none) ∧ b''.keys.Perm b'.keys := by
  obtain ⟨b', h⟩ : ∃ b', ({ bodies := parentRequest, keys := [] } : Builder).update
      (answering parentData) .inOrder 2 = some (b', none) := ⟨_, rfl⟩
  have hc : Coherent parentData parentRequest := coherent_of_levels (n := 1) (by decide) rfl
  exact ⟨b', h, update_keys_perm_of_coherent hc h _⟩

/-- A request reaching `motion/2/x_id` in one round through two relations, as a relation and as
a plain field. -/
def convergingRequest : List Body :=
  [⟨[("motion/1", [
    ("a_id", some (.relation "motion" [("x_id", some (.relation "motion" [("title", none)]))])),
    ("b_id", some (.relation "motion" [("x_id", none)]))])]⟩]

/-- Data in which both relations of `motion/1` point at `motion/2`, and `motion/2/x_id` at
`motion/3`. -/
def convergingData : Data := fun k ↦
  if k = "motion/1/a_id" ∨ k = "motion/1/b_id" then some (.string "motion/2")
  else if k = "motion/2/x_id" then some (.string "motion/3") else none

/-- **The keys depend on the iteration order.** Whichever relation the `processed` loop visits
last decides the description of `motion/2/x_id`, and with it whether `motion/3/title` is listed. -/
theorem update_keys_depend_on_order :
    ∃ b₁ b₂, ({ bodies := convergingRequest, keys := [] } : Builder).update
        (answering convergingData) .inOrder 3 = some (b₁, none) ∧
      ({ bodies := convergingRequest, keys := [] } : Builder).update (answering convergingData)
        .processedReversed 3 = some (b₂, none) ∧ ¬b₁.keys.Perm b₂.keys :=
  ⟨{ bodies := convergingRequest, keys := ["motion/1/b_id", "motion/1/a_id", "motion/2/x_id"] },
    { bodies := convergingRequest,
      keys := ["motion/1/b_id", "motion/1/a_id", "motion/2/x_id", "motion/3/title"] },
    rfl, rfl, by decide⟩

end Keys

/-! ## Several bodies -/

section Bodies

variable {bodies : List Body} {data : Data} {s : Schedule} {fuel : Nat}

/-- On coherent data, when `Update` of all bodies succeeds, `Update` of each single body succeeds
within the same fuel: its level walk has finished by then. -/
theorem update_single_of_update {b' : Builder} (hc : Coherent data bodies)
    (h : ({ bodies, keys := [] } : Builder).update (answering data) s fuel = some (b', none))
    {body : Body} (hb : body ∈ bodies) :
    ∃ b₁, ({ bodies := [body], keys := [] } : Builder).update (answering data) s fuel =
      some (b₁, none) := by
  have href := @refines_loopState data bodies s hc fuel
  rw [(loopState_of_update_ok h).1] at href
  obtain ⟨keys', ha, -⟩ := refines_done href
  obtain ⟨keys₁, ha₁⟩ := levelState_finished_of_subset (level_subset_of_mem hb) ha
  have href₁ := @refines_loopState data [body] s (hc.of_subset (level_subset_of_mem hb)) fuel
  rw [ha₁] at href₁
  obtain ⟨keys, hs, -⟩ := refines_finished href₁
  exact ⟨_, by rw [update_eq, hs]; rfl⟩

/-- **A request of several bodies lists the union of its bodies' keys**, on coherent data: when
`ManyFromJSON` builds a builder of the bodies, `FromJSON` builds one of each body with the same
data, iteration orders and fuel, and a key is listed by the first iff one of the others lists
it. -/
theorem manyFromJSON_keys_union {kb : Builder} (hc : Coherent data bodies)
    (h : manyFromJSON (.ok bodies) (answering data) s fuel = some (.ok kb)) :
    (∀ body ∈ bodies, ∃ kb₁, fromJSON (.ok body) (answering data) s fuel = some (.ok kb₁)) ∧
      ∀ k, k ∈ kb.keys ↔ ∃ body ∈ bodies, ∃ kb₁,
        fromJSON (.ok body) (answering data) s fuel = some (.ok kb₁) ∧ k ∈ kb₁.keys := by
  obtain ⟨_, he, -, hkb⟩ := manyFromJSON_eq_ok_iff.mp h
  cases he
  have hu := newBuilder_eq_ok_iff.mp hkb
  have hsingle : ∀ body ∈ bodies, ∃ kb₁, fromJSON (.ok body) (answering data) s fuel =
      some (.ok kb₁) := fun body hb ↦
    (update_single_of_update hc hu hb).imp fun _ h₁ ↦ fromJSON_eq_ok_iff.mpr h₁
  refine ⟨hsingle, fun k ↦ ?_⟩
  rw [mem_keys_iff_observes hc hu, observes_iff_exists_body]
  constructor
  · rintro ⟨body, hb, hk⟩
    obtain ⟨kb₁, h₁⟩ := hsingle body hb
    have hc₁ := hc.of_subset (level_subset_of_mem hb)
    exact ⟨body, hb, kb₁, h₁, (mem_keys_iff_observes hc₁ (fromJSON_eq_ok_iff.mp h₁)).mpr hk⟩
  · rintro ⟨body, hb, kb₁, h₁, hk⟩
    have hc₁ := hc.of_subset (level_subset_of_mem hb)
    exact ⟨body, hb, (mem_keys_iff_observes hc₁ (fromJSON_eq_ok_iff.mp h₁)).mp hk⟩

/-- `parentRequest` as two bodies: one with the relation, one with the plain field. -/
def parentBodies : List Body :=
  [⟨[("motion/1", [("parent_id", some (.relation "motion" [("title", none)]))])]⟩,
    ⟨[("motion/2", [("title", none)])]⟩]

theorem manyFromJSON_keys_union_parent :
    ∃ kb, manyFromJSON (.ok parentBodies) (answering parentData) .inOrder 2 = some (.ok kb) ∧
      (∀ body ∈ parentBodies, ∃ kb₁,
        fromJSON (.ok body) (answering parentData) .inOrder 2 = some (.ok kb₁)) ∧
      ∀ k, k ∈ kb.keys ↔ ∃ body ∈ parentBodies, ∃ kb₁,
        fromJSON (.ok body) (answering parentData) .inOrder 2 = some (.ok kb₁) ∧ k ∈ kb₁.keys := by
  obtain ⟨kb, h⟩ : ∃ kb, manyFromJSON (.ok parentBodies) (answering parentData) .inOrder 2 =
      some (.ok kb) := ⟨_, rfl⟩
  have hc : Coherent parentData parentBodies := coherent_of_levels (n := 1) (by decide) rfl
  exact ⟨kb, h, manyFromJSON_keys_union hc h⟩

end Bodies

end Keysbuilder
