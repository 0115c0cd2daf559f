import Mathlib.Data.List.Dedup
import OpenSlidesAutoupdate.Keysbuilder.Builder

/-!
# What a request observes

The keys a request observes over fixed data, stated without Go maps.

## The tree walk

`Walk data k d k'`: the walk of the request from key `k` with description `d` reaches `k'`. It
reaches `k` itself, and, when `d` is a relation whose value `data` holds and accepts, whatever the
walks of the inserted children reach. `Observes bodies data` is the union of the walks of all
top-level pairs of all bodies; for several bodies it is by definition the union over the single
bodies (`observes_iff_exists_body`).

## Levels

`level data bodies r` lists the pairs at depth `r` with repetitions: the top-level pairs at `0`,
and the children of the pairs at `r` at `r + 1`. A key is observed iff some level holds it
(`observes_iff_mem_level`). `LevelState` walks the levels one by one, appending the distinct keys
of each, until a level has no relation field or one of its values is rejected: this is what
`Update` computes, with a list in place of each map.

## Coherence

`Update` keeps one description per key and round in `process`, the later insert winning; the walk
keeps them all. The two agree when no level holds one key with two descriptions, `Coherent`.

## Sub-requests

Each level of one body is part of the same level of the whole request, so the walk of the body
keeps up with the walk of the whole (`SubWalk`): it is at the same level or has finished, and a
value it rejects is rejected by the whole. When the whole has finished, so has the body.
-/

namespace Keysbuilder

/-! ## The tree walk -/

/-- The walk of a request from `key` with description `d`: it reaches `key`, and what the walks of
the children reach. A plain field, an absent value and a rejected one have no children. -/
inductive Walk (data : Data) : Key → Option FieldDescription → Key → Prop
  | here (key : Key) (d : Option FieldDescription) : Walk data key d key
  | child {key : Key} {d : Option FieldDescription} {p : Key × Option FieldDescription} {k : Key} :
      p ∈ children data (key, d) → Walk data p.1 p.2 k → Walk data key d k

/-- The keys a request observes over `data`: those the walk of a top-level pair reaches. -/
def Observes (bodies : List Body) (data : Data) (k : Key) : Prop :=
  ∃ p ∈ bodies.flatMap Body.keys, Walk data p.1 p.2 k

/-- Several bodies observe the union of what each body observes. -/
theorem observes_iff_exists_body {bodies : List Body} {data : Data} {k : Key} :
    Observes bodies data k ↔ ∃ body ∈ bodies, Observes [body] data k := by
  simp only [Observes, List.mem_flatMap, List.flatMap_singleton]
  constructor
  · rintro ⟨p, ⟨body, hb, hp⟩, hw⟩
    exact ⟨body, hb, p, hp, hw⟩
  · rintro ⟨body, hb, p, hp, hw⟩
    exact ⟨p, ⟨body, hb, hp⟩, hw⟩

/-! ## Levels -/

/-- The pairs at relation-nesting depth `r` over `data`, with repetitions. -/
def level (data : Data) (bodies : List Body) : Nat → List (Key × Option FieldDescription)
  | 0 => bodies.flatMap Body.keys
  | r + 1 => (level data bodies r).flatMap (children data)

section Level

variable {data : Data} {bodies : List Body}

theorem observes_of_walk_of_mem_level {r : Nat} {key : Key} {d : Option FieldDescription}
    (h : (key, d) ∈ level data bodies r) {k : Key} (hw : Walk data key d k) :
    Observes bodies data k := by
  induction r generalizing key d with
  | zero => exact ⟨(key, d), h, hw⟩
  | succ r ih =>
    obtain ⟨q, hq, hc⟩ := List.mem_flatMap.mp h
    exact ih hq (.child hc hw)

theorem mem_level_of_walk {r : Nat} {key : Key} {d : Option FieldDescription}
    (h : (key, d) ∈ level data bodies r) {k : Key} (hw : Walk data key d k) :
    ∃ r' d', (k, d') ∈ level data bodies r' := by
  induction hw generalizing r with
  | here => exact ⟨r, _, h⟩
  | child hc _ ih =>
    have h' : _ ∈ level data bodies (r + 1) := List.mem_flatMap.mpr ⟨_, h, hc⟩
    exact ih (by rwa [Prod.mk.eta])

/-- A key is observed iff some level holds it. -/
theorem observes_iff_mem_level {k : Key} :
    Observes bodies data k ↔ ∃ r d, (k, d) ∈ level data bodies r := by
  constructor
  · rintro ⟨p, hp, hw⟩
    exact mem_level_of_walk (r := 0) hp hw
  · rintro ⟨r, d, h⟩
    exact observes_of_walk_of_mem_level h (.here k d)

/-- The levels after an empty one are empty. -/
theorem level_add_eq_nil_of_eq_nil {r : Nat} (h : level data bodies r = []) (m : Nat) :
    level data bodies (r + m) = [] := by
  induction m with
  | zero => exact h
  | succ m ih => rw [← Nat.add_assoc, level, ih, List.flatMap_nil]

/-- A level without relation fields is the last non-empty one. -/
theorem level_add_eq_nil {r : Nat} (h : ∀ p ∈ level data bodies r, p.2 = none) (m : Nat) :
    level data bodies (r + 1 + m) = [] := by
  have hnext : level data bodies (r + 1) = [] :=
    List.flatMap_eq_nil_iff.mpr fun ⟨k, d⟩ hp ↦ by cases h _ hp; rfl
  exact level_add_eq_nil_of_eq_nil hnext m

end Level

/-- No level holds one key with two descriptions. -/
def Coherent (data : Data) (bodies : List Body) : Prop :=
  ∀ r k d d', (k, d) ∈ level data bodies r → (k, d') ∈ level data bodies r → d = d'

/-- Coherence is checked on the levels up to an empty one, each with distinct keys. -/
theorem coherent_of_levels {data : Data} {bodies : List Body} {n : Nat}
    (hnodup : ∀ r ≤ n, ((level data bodies r).map Prod.fst).Nodup)
    (hnil : level data bodies (n + 1) = []) : Coherent data bodies := by
  intro r k d d' h h'
  by_cases hr : r ≤ n
  · exact congrArg Prod.snd (List.inj_on_of_nodup_map (hnodup r hr) h h' rfl)
  · obtain ⟨m, rfl⟩ := Nat.exists_eq_add_of_lt (Nat.lt_of_not_le hr)
    rw [show n + m + 1 = n + 1 + m by omega, level_add_eq_nil_of_eq_nil hnil m] at h
    cases h

/-! ## The level walk -/

/-- A pair of a level is a relation field whose value `data` rejects. -/
def rejected (data : Data) : Key × Option FieldDescription → Bool
  | (_, none) => false
  | (key, some d) => match data key with
    | none => false
    | some value => match d.keys value with
      | .ok _ => false
      | .error _ => true

/-- The walk over the levels, between two levels. -/
inductive LevelState where
  /-- Before level `r`, with the distinct keys of each level below it. -/
  | walking (r : Nat) (keys : List Key)
  /-- Level `r` was the last with keys. -/
  | finished (keys : List Key)
  /-- A value was rejected. -/
  | rejected

/-- One level of the walk: append its distinct keys, then stop at a level without relation
fields, fail at one with a rejected value, and go on otherwise. -/
def levelStep (data : Data) (bodies : List Body) : LevelState → LevelState
  | .walking r keys =>
    let keys := keys ++ ((level data bodies r).map Prod.fst).dedup
    if (level data bodies r).all (·.2.isNone) then .finished keys
    else if (level data bodies r).any (rejected data) then .rejected
    else .walking (r + 1) keys
  | st => st

/-- The level walk after `n` levels. -/
def levelState (data : Data) (bodies : List Body) (n : Nat) : LevelState :=
  (levelStep data bodies)^[n] (.walking 0 [])

section LevelWalk

variable {data : Data} {bodies : List Body}

theorem levelState_succ (n : Nat) :
    levelState data bodies (n + 1) = levelStep data bodies (levelState data bodies n) :=
  Function.iterate_succ_apply' _ _ _

/-- While walking, the keys are those of the levels below, and those levels had relations. -/
theorem levelState_walking {n r : Nat} {keys : List Key}
    (h : levelState data bodies n = .walking r keys) :
    r = n ∧ keys = (List.range n).flatMap (fun i ↦ ((level data bodies i).map Prod.fst).dedup) ∧
      ∀ i < n, ¬∀ p ∈ level data bodies i, p.2 = none := by
  induction n generalizing r keys with
  | zero => cases h; exact ⟨rfl, rfl, fun _ h ↦ absurd h (Nat.not_lt_zero _)⟩
  | succ n ih =>
    rw [levelState_succ] at h
    cases hn : levelState data bodies n with
    | walking r' keys' =>
      obtain ⟨rfl, rfl, hrel⟩ := ih hn
      rw [hn] at h
      simp only [levelStep] at h
      split_ifs at h with hall hany
      cases h
      refine ⟨rfl, by rw [List.range_succ, List.flatMap_append, List.flatMap_singleton], ?_⟩
      intro i hi hnone
      rcases Nat.lt_succ_iff_lt_or_eq.mp hi with hi | rfl
      · exact hrel i hi hnone
      · exact hall (List.all_eq_true.mpr fun p hp ↦ Option.isNone_iff_eq_none.mpr (hnone p hp))
    | finished keys' => rw [hn] at h; cases h
    | rejected => rw [hn] at h; cases h

/-- A finished walk holds the keys of every level, and only those. -/
theorem mem_keys_of_levelState_finished {n : Nat} {keys : List Key}
    (h : levelState data bodies n = .finished keys) {k : Key} :
    k ∈ keys ↔ ∃ r d, (k, d) ∈ level data bodies r := by
  induction n with
  | zero => cases h
  | succ n ih =>
    rw [levelState_succ] at h
    cases hn : levelState data bodies n with
    | walking r keys' =>
      obtain ⟨rfl, rfl, -⟩ := levelState_walking hn
      rw [hn] at h
      simp only [levelStep] at h
      split_ifs at h with hall
      cases h
      have hall' : ∀ p ∈ level data bodies r, p.2 = none := fun p hp ↦
        Option.isNone_iff_eq_none.mp (List.all_eq_true.mp hall p hp)
      simp only [List.mem_append, List.mem_flatMap, List.mem_range, List.mem_dedup,
        List.mem_map, Prod.exists, exists_and_right, exists_eq_right]
      constructor
      · rintro (⟨i, -, d, hd⟩ | ⟨d, hd⟩)
        · exact ⟨i, d, hd⟩
        · exact ⟨r, d, hd⟩
      · rintro ⟨i, d, hd⟩
        rcases Nat.lt_trichotomy i r with hi | rfl | hi
        · exact .inl ⟨i, hi, d, hd⟩
        · exact .inr ⟨d, hd⟩
        · obtain ⟨m, rfl⟩ := Nat.exists_eq_add_of_lt hi
          rw [show r + m + 1 = r + 1 + m by omega, level_add_eq_nil hall'] at hd
          cases hd
    | finished keys' => rw [hn] at h; cases h; exact ih hn
    | rejected => rw [hn] at h; cases h

end LevelWalk

/-! ## Sub-requests -/

/-- A level of one body is part of the same level of the whole request. -/
theorem level_subset_of_mem {data : Data} {bodies : List Body} {body : Body} (hb : body ∈ bodies)
    (r : Nat) : level data [body] r ⊆ level data bodies r := by
  induction r with
  | zero => exact fun p hp ↦ List.mem_flatMap.mpr ⟨body, hb, by simpa [level] using hp⟩
  | succ r ih =>
    intro p hp
    obtain ⟨q, hq, hc⟩ := List.mem_flatMap.mp hp
    exact List.mem_flatMap.mpr ⟨q, ih hq, hc⟩

/-- The walk of a sub-request keeps up with the walk of the whole request: at the same level
while both walk, finished by the time the whole is, and rejected only if the whole is. -/
def SubWalk : LevelState → LevelState → Prop
  | .walking r _, .walking r' _ => r = r'
  | .walking .., .finished _ | .rejected, .walking .. | .rejected, .finished _ => False
  | _, _ => True

theorem subWalk_rejected (a : LevelState) : SubWalk a .rejected := by
  cases a <;> trivial

theorem subWalk_finished (keys : List Key) (a : LevelState) : SubWalk (.finished keys) a := by
  cases a <;> trivial

section SubRequest

variable {data : Data} {sub bodies : List Body}

/-- A sub-request of a coherent request is coherent. -/
theorem Coherent.of_subset (hc : Coherent data bodies)
    (hsub : ∀ r, level data sub r ⊆ level data bodies r) : Coherent data sub :=
  fun r k d d' h h' ↦ hc r k d d' (hsub r h) (hsub r h')

/-- One level of both walks keeps the sub-request's walk up with the whole's. -/
theorem subWalk_levelStep (hsub : ∀ r, level data sub r ⊆ level data bodies r) {a a' : LevelState}
    (h : SubWalk a a') : SubWalk (levelStep data sub a) (levelStep data bodies a') := by
  cases a with
  | walking r keys =>
    cases a' with
    | walking r' keys' =>
      obtain rfl : r = r' := h
      simp only [levelStep]
      by_cases hall : (level data bodies r).all (·.2.isNone)
      · have hall' : (level data sub r).all (·.2.isNone) :=
          List.all_eq_true.mpr fun p hp ↦ List.all_eq_true.mp hall p (hsub r hp)
        simp only [hall, hall', if_true]
        trivial
      by_cases hany : (level data bodies r).any (rejected data)
      · simp only [hall, hany, if_false, if_true]
        exact subWalk_rejected _
      have hany' : ¬(level data sub r).any (rejected data) := fun h ↦ hany
        (let ⟨p, hp, hr⟩ := List.any_eq_true.mp h; List.any_eq_true.mpr ⟨p, hsub r hp, hr⟩)
      simp only [hall, hany, hany', if_false]
      split_ifs <;> trivial
    | finished => exact (h : False).elim
    | rejected => exact subWalk_rejected _
  | finished keys => exact subWalk_finished keys _
  | rejected =>
    cases a' with
    | rejected => exact subWalk_rejected _
    | _ => exact (h : False).elim

/-- The walk of a sub-request keeps up with the whole's after any number of levels. -/
theorem subWalk_levelState (hsub : ∀ r, level data sub r ⊆ level data bodies r) (n : Nat) :
    SubWalk (levelState data sub n) (levelState data bodies n) := by
  induction n with
  | zero => exact rfl
  | succ n ih =>
    rw [levelState_succ, levelState_succ]
    exact subWalk_levelStep hsub ih

/-- When the walk of the whole request has finished, so has the walk of the sub-request. -/
theorem levelState_finished_of_subset (hsub : ∀ r, level data sub r ⊆ level data bodies r)
    {n : Nat} {keys' : List Key} (h : levelState data bodies n = .finished keys') :
    ∃ keys, levelState data sub n = .finished keys := by
  have hw := subWalk_levelState hsub n
  rw [h] at hw
  cases hs : levelState data sub n with
  | finished keys => exact ⟨keys, rfl⟩
  | walking => rw [hs] at hw; exact hw.elim
  | rejected => rw [hs] at hw; exact hw.elim

end SubRequest

end Keysbuilder
