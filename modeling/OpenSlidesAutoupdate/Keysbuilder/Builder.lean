import Mathlib.Data.List.AList
import OpenSlidesAutoupdate.Keysbuilder.Request

/-!
# `Builder.Update`, one round at a time

`Update` resolves a request level by level. `process` holds the keys of the current level with
their descriptions; a round appends all of them to `b.keys`, fetches the values of the relation
fields among them with one `RestrictedData` call, and lets each relation insert the keys of the
next level into a cleared `process`. The loop breaks when a level has no relation field left,
and returns at the first error, which the deferred closure turns into an empty key list.

## Go maps

`process` and `processed` are Go maps, modelled as `AList`s: a key is in a map at most once, and
an insert of a key already there replaces its value, so the later insert wins. The order in which
`for key, description := range m` visits the entries is chosen by the Go runtime, afresh for
every loop. `Schedule` holds these choices as permutations, and every statement about `Update`
is made for all schedules.

## The loop

`Update` is a `for { ... }` with `break` and `return`. One `step` is one pass of its body, from a
`running` state to the next round, to `done` (the `break`) or to `failed` (a `return` with an
error). `Builder.update` runs `step` a given number of times; `none` means the loop had not ended
by then. The data provider is seen through its answers: `RestrictedData` gives the answer to the
call of each round.
-/

namespace Keysbuilder

/-! ## Go maps -/

/-- `process`, a `map[string]fieldDescription`: the keys of one round and their descriptions,
`none` for a plain field. -/
abbrev DescriptionMap := AList fun _ : Key ↦ Option FieldDescription

/-- `processed`: the relation fields of one round, whose descriptions are never `nil`. -/
abbrev ProcessedMap := AList fun _ : Key ↦ FieldDescription

section InsertAll

variable {α : Type}

/-- `m[key] = value` for each insert in order: a later insert of a key replaces an earlier one. -/
def insertAll (inserts : List (Key × α)) (m : AList fun _ : Key ↦ α) : AList fun _ : Key ↦ α :=
  inserts.foldl (fun m p ↦ m.insert p.1 p.2) m

@[simp] theorem insertAll_nil (m : AList fun _ : Key ↦ α) : insertAll [] m = m := rfl

@[simp] theorem insertAll_cons (p : Key × α) (inserts : List (Key × α))
    (m : AList fun _ : Key ↦ α) : insertAll (p :: inserts) m = insertAll inserts (m.insert p.1 p.2) :=
  rfl

theorem insertAll_append (xs ys : List (Key × α)) (m : AList fun _ : Key ↦ α) :
    insertAll (xs ++ ys) m = insertAll ys (insertAll xs m) :=
  List.foldl_append _ _ _ _

/-- A key is in the map after the inserts iff it was inserted or was there before. -/
theorem mem_insertAll {inserts : List (Key × α)} {m : AList fun _ : Key ↦ α} {k : Key} :
    k ∈ insertAll inserts m ↔ k ∈ inserts.map Prod.fst ∨ k ∈ m := by
  induction inserts generalizing m with
  | nil => simp
  | cons p inserts ih =>
    simp only [insertAll_cons, ih, AList.mem_insert, List.map_cons, List.mem_cons]
    tauto

/-- Every value in the map after the inserts was inserted for its key, or was there before and
its key was not inserted. -/
theorem lookup_insertAll {inserts : List (Key × α)} {m : AList fun _ : Key ↦ α} {k : Key}
    {v : α} (h : (insertAll inserts m).lookup k = some v) :
    (k, v) ∈ inserts ∨ (k ∉ inserts.map Prod.fst ∧ m.lookup k = some v) := by
  induction inserts generalizing m with
  | nil => exact .inr ⟨List.not_mem_nil _, h⟩
  | cons p inserts ih =>
    obtain ⟨k', w⟩ := p
    rcases ih h with h | ⟨hk, h⟩
    · exact .inl (List.mem_cons_of_mem _ h)
    · by_cases hp : k = k'
      · subst hp
        rw [AList.lookup_insert, Option.some_inj] at h
        exact .inl (h ▸ List.mem_cons_self _ _)
      · rw [AList.lookup_insert_ne hp] at h
        exact .inr ⟨by simp [hp, hk], h⟩

/-- When every insert of a key carries the same value, the key holds that value afterwards. -/
theorem lookup_insertAll_of_unique {inserts : List (Key × α)} {m : AList fun _ : Key ↦ α}
    {k : Key} {v : α} (h : (k, v) ∈ inserts) (hu : ∀ w, (k, w) ∈ inserts → w = v) :
    (insertAll inserts m).lookup k = some v := by
  have hk : k ∈ inserts.map Prod.fst := List.mem_map_of_mem Prod.fst h
  obtain ⟨w, hw⟩ := Option.isSome_iff_exists.mp
    (AList.lookup_isSome.mpr (mem_insertAll.mpr (.inl hk)))
  rcases lookup_insertAll hw with hw' | ⟨hk', -⟩
  · rw [hw, hu w hw']
  · exact absurd hk hk'

end InsertAll

/-- Two entries of one key in an `AList` are the same entry. -/
theorem AList.eq_of_mem_entries {α : Type} {m : AList fun _ : Key ↦ α} {k : Key} {v w : α}
    (hv : ⟨k, v⟩ ∈ m.entries) (hw : ⟨k, w⟩ ∈ m.entries) : v = w :=
  Option.some_inj.mp ((AList.mem_lookup_iff.mpr hv).symm.trans (AList.mem_lookup_iff.mpr hw))

/-! ## Iteration orders -/

/-- The iteration orders the Go runtime picks for the loops over maps in `Update`: over the
fields of the `i`-th body when `body.keys` fills `process`, and over `process` and `processed` in
round `r`. Each is a permutation of the entries. -/
structure Schedule where
  /-- The order of the inserts of `bodies[i].keys(process)`. -/
  body : Nat → List (Key × Option FieldDescription) → List (Key × Option FieldDescription)
  /-- The order of `for key, description := range process` in round `r`. -/
  process : Nat → List (Σ _ : Key, Option FieldDescription) →
    List (Σ _ : Key, Option FieldDescription)
  /-- The order of `for key, description := range processed` in round `r`. -/
  processed : Nat → List (Σ _ : Key, FieldDescription) → List (Σ _ : Key, FieldDescription)
  body_perm : ∀ i l, (body i l).Perm l
  process_perm : ∀ r l, (process r l).Perm l
  processed_perm : ∀ r l, (processed r l).Perm l

/-- Every map visited in the order of its entries. -/
def Schedule.inOrder : Schedule where
  body _ l := l
  process _ l := l
  processed _ l := l
  body_perm _ _ := .refl _
  process_perm _ _ := .refl _
  processed_perm _ _ := .refl _

/-! ## The builder -/

/-- `Builder`: the bodies of a request and the keys they resolve to. `Keys()` returns a copy of
`keys`. The data provider and the user id only reach `RestrictedData`, whose answers `update`
takes as an argument. -/
structure Builder where
  /-- `bodies`, one per body of the request. -/
  bodies : List Body
  /-- `keys`, the resolved keys. -/
  keys : List Key
  deriving Repr

/-- `DataProvider.RestrictedData` as one `Update` sees it: the answer to the call of round `r`
for the keys `needed`, the restricted values or the error of the call. The answers of different
rounds may differ, as the datastore changes while `Update` runs. -/
abbrev RestrictedData := Nat → List Key → Except String Data

/-- A data provider that answers every call of the run with the same data. -/
def answering (data : Data) : RestrictedData := fun _ _ ↦ .ok data

/-- `process` before the loop: `body.keys(process)` for each body in order, each making its
inserts in the order the schedule gives. -/
def seed (s : Schedule) (bodies : List Body) : DescriptionMap :=
  insertAll (bodies.enum.flatMap fun ib ↦ s.body ib.1 ib.2.keys) ∅

theorem seed_inserts_perm (s : Schedule) (bodies : List Body) :
    (bodies.enum.flatMap fun ib ↦ s.body ib.1 ib.2.keys).Perm (bodies.flatMap Body.keys) := by
  have h : (bodies.enum.flatMap fun ib ↦ ib.2.keys) = bodies.flatMap Body.keys := by
    rw [← List.flatMap_map Prod.snd Body.keys, List.enum_map_snd]
  exact h ▸ List.Perm.flatMap_left _ fun ib _ ↦ s.body_perm _ _

/-! ## One round -/

/-- The relation fields among entries of `process`, with their descriptions. -/
def relations (entries : List (Σ _ : Key, Option FieldDescription)) :
    List (Key × FieldDescription) :=
  entries.filterMap fun e ↦ e.2.map (e.1, ·)

@[simp] theorem mem_relations {entries : List (Σ _ : Key, Option FieldDescription)} {k : Key}
    {d : FieldDescription} : (k, d) ∈ relations entries ↔ ⟨k, some d⟩ ∈ entries := by
  simp only [relations, List.mem_filterMap]
  constructor
  · rintro ⟨⟨k', _ | d'⟩, he, h⟩ <;> simp only [Option.map_none', Option.map_some',
      Option.some.injEq, Prod.mk.injEq, reduceCtorEq] at h
    obtain ⟨rfl, rfl⟩ := h
    exact he
  · exact fun he ↦ ⟨_, he, rfl⟩

/-- The first loop of a round, `for key, description := range process`, over the entries in
iteration order: every key is appended to `b.keys`, and the key and description of every relation
field to `needed` and `processed`. -/
def drain : List (Σ _ : Key, Option FieldDescription) → List Key × List Key × ProcessedMap →
    List Key × List Key × ProcessedMap
  | [], acc => acc
  | ⟨key, none⟩ :: rest, (keys, needed, processed) => drain rest (keys ++ [key], needed, processed)
  | ⟨key, some d⟩ :: rest, (keys, needed, processed) =>
    drain rest (keys ++ [key], needed ++ [key], processed.insert key d)

theorem drain_eq (entries : List (Σ _ : Key, Option FieldDescription)) (keys needed : List Key)
    (processed : ProcessedMap) :
    drain entries (keys, needed, processed) =
      (keys ++ entries.map Sigma.fst, needed ++ (relations entries).map Prod.fst,
        insertAll (relations entries) processed) := by
  induction entries generalizing keys needed processed with
  | nil => simp [drain, relations]
  | cons e entries ih => obtain ⟨k, _ | d⟩ := e <;> simp [drain, ih, relations]

/-- The inserts a field makes into the next round's `process` over `data`: none for a plain
field, an absent value or a rejected one. -/
def children (data : Data) : Key × Option FieldDescription → List (Key × Option FieldDescription)
  | (_, none) => []
  | (key, some d) => match data key with
    | none => []
    | some value => match d.keys value with
      | .ok inserts => inserts
      | .error _ => []

/-- `data` rejects the value of a relation field: present, but not what the relation decodes. -/
def Rejects (data : Data) (key : Key) (d : FieldDescription) : Prop :=
  ∃ value err, data key = some value ∧ d.keys value = .error err

section Children

variable {data : Data} {key : Key} {d : FieldDescription}

theorem children_of_none (h : data key = none) : children data (key, some d) = [] := by
  simp [children, h]

theorem children_of_ok {value : Value} {inserts : List (Key × Option FieldDescription)}
    (hv : data key = some value) (hk : d.keys value = .ok inserts) :
    children data (key, some d) = inserts := by
  simp [children, hv, hk]

theorem not_rejects_of_none (h : data key = none) : ¬Rejects data key d := by
  simp [Rejects, h]

theorem not_rejects_of_ok {value : Value} {inserts : List (Key × Option FieldDescription)}
    (hv : data key = some value) (hk : d.keys value = .ok inserts) : ¬Rejects data key d := by
  simp [Rejects, hv, hk]

theorem rejects_of_error {value : Value} {err : KeysError} (hv : data key = some value)
    (hk : d.keys value = .error err) : Rejects data key d :=
  ⟨value, err, hv, hk⟩

end Children

/-- The second loop of a round, `for key, description := range processed`, over the entries in
iteration order: a relation whose value is absent is skipped, any other inserts the keys of its
targets into `process`, and the first rejected value ends `Update` with its error, a type error
as a `ValueError`. -/
def expand (data : Data) :
    List (Σ _ : Key, FieldDescription) → DescriptionMap → Except Error DescriptionMap
  | [], process => .ok process
  | ⟨key, description⟩ :: rest, process =>
    match data key with
    | none => expand data rest process
    | some value =>
      match description.keys value with
      | .error (.unmarshalType got expect) => .error (.value key got expect)
      | .error err => .error (.keys err)
      | .ok inserts => expand data rest (insertAll inserts process)

/-- `expand` succeeds exactly when no value is rejected, and then makes every field's inserts in
iteration order. -/
theorem expand_eq_ok_iff {data : Data} {entries : List (Σ _ : Key, FieldDescription)}
    {process process' : DescriptionMap} :
    expand data entries process = .ok process' ↔
      (∀ e ∈ entries, ¬Rejects data e.1 e.2) ∧
        process' = insertAll (entries.flatMap fun e ↦ children data (e.1, some e.2)) process := by
  induction entries generalizing process with
  | nil => simp [expand, eq_comm]
  | cons e entries ih =>
    obtain ⟨key, d⟩ := e
    simp only [List.forall_mem_cons, List.flatMap_cons, insertAll_append]
    cases hv : data key with
    | none => simp only [expand, hv, ih, not_rejects_of_none hv, children_of_none hv, true_and,
        not_false_eq_true, insertAll_nil]
    | some value =>
      cases hk : d.keys value with
      | error err =>
        have := rejects_of_error hv hk
        cases err <;> simp [expand, hv, hk, this]
      | ok inserts => simp only [expand, hv, hk, ih, not_rejects_of_ok hv hk,
          children_of_ok hv hk, true_and, not_false_eq_true]

/-- An entry of a map built from nothing was inserted. -/
theorem mem_insertAll_empty {α : Type} {inserts : List (Key × α)} {k : Key} {v : α}
    (h : ⟨k, v⟩ ∈ (insertAll inserts ∅).entries) : (k, v) ∈ inserts := by
  rcases lookup_insertAll (AList.mem_lookup_iff.mpr h) with h | ⟨-, h⟩
  · exact h
  · simp at h

/-- `processed` holds exactly the relation fields of `process`, whatever the orders of both
loops. -/
theorem mem_processed_iff {s : Schedule} {r : Nat} {process : DescriptionMap} {k : Key}
    {d : FieldDescription} :
    ⟨k, d⟩ ∈ s.processed r (insertAll (relations (s.process r process.entries)) ∅).entries ↔
      ⟨k, some d⟩ ∈ process.entries := by
  rw [(s.processed_perm _ _).mem_iff]
  constructor
  · intro h
    exact (s.process_perm _ _).mem_iff.mp (mem_relations.mp (mem_insertAll_empty h))
  · intro h
    have hrel : (k, d) ∈ relations (s.process r process.entries) :=
      mem_relations.mpr ((s.process_perm _ _).mem_iff.mpr h)
    refine AList.mem_lookup_iff.mp (lookup_insertAll_of_unique hrel fun w hw ↦ ?_)
    have hw := (s.process_perm _ _).mem_iff.mp (mem_relations.mp hw)
    exact Option.some_inj.mp (AList.eq_of_mem_entries hw h)

/-- The descriptions a relation field inserts are its nested fields. -/
theorem mem_fields_of_mem_children {data : Data} {key : Key} {d : FieldDescription}
    {p : Key × Option FieldDescription} (h : p ∈ children data (key, some d)) :
    ∃ f ∈ d.fields, f.2 = p.2 := by
  cases hv : data key with
  | none => rw [children_of_none hv] at h; cases h
  | some value =>
    cases hk : d.keys value with
    | error err => simp [children, hv, hk] at h
    | ok inserts => exact FieldDescription.mem_fields_of_keys hk (children_of_ok hv hk ▸ h)

/-- `expand` fails at a relation field whose value is present and rejected: a type error becomes
a `ValueError` naming the field, any other error is returned as it is. -/
theorem expand_eq_error {data : Data} {entries : List (Σ _ : Key, FieldDescription)}
    {process : DescriptionMap} {err : Error} (h : expand data entries process = .error err) :
    ∃ e ∈ entries, ∃ value, data e.1 = some value ∧
      ((∃ got expect, e.2.keys value = .error (.unmarshalType got expect) ∧
          err = .value e.1 got expect) ∨
        ∃ ke, e.2.keys value = .error ke ∧ (∀ got expect, ke ≠ .unmarshalType got expect) ∧
          err = .keys ke) := by
  induction entries generalizing process with
  | nil => cases h
  | cons e entries ih =>
    obtain ⟨key, d⟩ := e
    have hcons : ∀ {P : (Σ _ : Key, FieldDescription) → Prop}, (∃ e ∈ entries, P e) →
        ∃ e ∈ ⟨key, d⟩ :: entries, P e := fun ⟨e, he, hp⟩ ↦ ⟨e, List.mem_cons_of_mem _ he, hp⟩
    cases hv : data key with
    | none => simp only [expand, hv] at h; exact hcons (ih h)
    | some value =>
      cases hk : d.keys value with
      | error ke =>
        refine ⟨⟨key, d⟩, List.mem_cons_self _ _, value, hv, ?_⟩
        cases ke <;> simp only [expand, hv, hk, Except.error.injEq] at h <;> subst h <;> simp [hk]
      | ok inserts => simp only [expand, hv, hk] at h; exact hcons (ih h)

/-! ## The loop -/

/-- The state of the loop of `Update` between two passes of its body. -/
inductive LoopState where
  /-- At the start of round `round`: `process` holds the keys of the round, `keys` is `b.keys`. -/
  | running (round : Nat) (process : DescriptionMap) (keys : List Key)
  /-- The loop broke: the last round had no relation field. -/
  | done (keys : List Key)
  /-- `Update` returned `err`. -/
  | failed (err : Error)

/-- One pass of the body of `for { ... }` in `Update`. -/
def step (restrictedData : RestrictedData) (s : Schedule) : LoopState → LoopState
  | .running r process keys =>
    let (keys, needed, processed) := drain (s.process r process.entries) (keys, [], ∅)
    if needed = [] then .done keys
    else match restrictedData r needed with
      | .error err => .failed (.wrap "load needed keys" (.restrictedData err))
      | .ok data =>
        match expand data (s.processed r processed.entries) ∅ with
        | .error err => .failed err
        | .ok process => .running (r + 1) process keys
  | st => st

section Step

variable {rd : RestrictedData} {s : Schedule}

@[simp] theorem step_done (keys : List Key) : step rd s (.done keys) = .done keys := rfl

@[simp] theorem step_failed (err : Error) : step rd s (.failed err) = .failed err := rfl

/-- A round without a relation field breaks the loop, with the round's keys appended. -/
theorem step_running_of_relations_eq_nil {r : Nat} {process : DescriptionMap} {keys : List Key}
    (h : relations (s.process r process.entries) = []) :
    step rd s (.running r process keys) =
      .done (keys ++ (s.process r process.entries).map Sigma.fst) := by
  simp [step, drain_eq, h]

/-- A round with relation fields whose data is fetched and accepted starts the next round. -/
theorem step_running_of_expand_ok {r : Nat} {process process' : DescriptionMap} {keys : List Key}
    {data : Data} (hne : relations (s.process r process.entries) ≠ [])
    (hd : rd r ((relations (s.process r process.entries)).map Prod.fst) = .ok data)
    (hx : expand data (s.processed r (insertAll (relations (s.process r process.entries))
      ∅).entries) ∅ = .ok process') :
    step rd s (.running r process keys) =
      .running (r + 1) process' (keys ++ (s.process r process.entries).map Sigma.fst) := by
  simp only [step, drain_eq, List.nil_append, List.map_eq_nil_iff, hne, if_false, hd, hx]

/-- A round that starts another one appended its keys, got data from its `RestrictedData` call
and expanded every relation field over it. -/
theorem step_eq_running {st : LoopState} {r' : Nat} {process' : DescriptionMap}
    {keys' : List Key} (h : step rd s st = .running r' process' keys') :
    ∃ r process keys, st = .running r process keys ∧ r' = r + 1 ∧
      keys' = keys ++ (s.process r process.entries).map Sigma.fst ∧
      ∃ data, rd r ((relations (s.process r process.entries)).map Prod.fst) = .ok data ∧
        expand data (s.processed r (insertAll (relations (s.process r process.entries)) ∅).entries)
          ∅ = .ok process' := by
  cases st with
  | running r process keys =>
    simp only [step, drain_eq, List.nil_append] at h
    split_ifs at h
    split at h
    · cases h
    · rename_i data hd
      split at h
      · cases h
      · rename_i he
        cases h
        exact ⟨r, process, keys, rfl, rfl, rfl, data, hd, he⟩
  | done => cases h
  | failed => cases h

/-- A pass that fails the loop was a round with relation fields whose `RestrictedData` call
failed, or whose expansion failed. -/
theorem step_eq_failed {st : LoopState} {err : Error} (h : step rd s st = .failed err) :
    st = .failed err ∨ ∃ r process keys, st = .running r process keys ∧
      relations (s.process r process.entries) ≠ [] ∧
      ((∃ msg, rd r ((relations (s.process r process.entries)).map Prod.fst) = .error msg ∧
          err = .wrap "load needed keys" (.restrictedData msg)) ∨
        ∃ data, rd r ((relations (s.process r process.entries)).map Prod.fst) = .ok data ∧
          expand data (s.processed r (insertAll (relations (s.process r process.entries))
            ∅).entries) ∅ = .error err) := by
  cases st with
  | running r process keys =>
    refine .inr ⟨r, process, keys, rfl, ?_⟩
    simp only [step, drain_eq, List.nil_append] at h
    split_ifs at h with hr
    simp only [List.map_eq_nil_iff] at hr
    refine ⟨hr, ?_⟩
    split at h
    · rename_i msg hd
      cases h
      exact .inl ⟨msg, hd, rfl⟩
    · rename_i data hd
      split at h
      · rename_i hx
        cases h
        exact .inr ⟨data, hd, hx⟩
      · cases h
  | done => cases h
  | failed => exact .inl (by simpa using h)

/-- A pass that ends the loop was the break of a round without a relation field. -/
theorem step_eq_done {st : LoopState} {keys' : List Key} (h : step rd s st = .done keys') :
    st = .done keys' ∨ ∃ r process keys, st = .running r process keys ∧
      relations (s.process r process.entries) = [] ∧
      keys' = keys ++ (s.process r process.entries).map Sigma.fst := by
  cases st with
  | running r process keys =>
    simp only [step, drain_eq, List.nil_append, List.map_eq_nil_iff] at h
    split_ifs at h with hr
    · simp only [drain_eq, List.nil_append, List.map_eq_nil_iff] at hr
      cases h
      exact .inr ⟨r, process, keys, rfl, hr, rfl⟩
    · split at h
      · cases h
      · split at h <;> cases h
  | done => exact .inl (by simpa using h)
  | failed => cases h

/-- The keys a state holds in `b.keys`: none once `Update` has failed. -/
def LoopState.keys : LoopState → List Key
  | .running _ _ keys | .done keys => keys
  | .failed _ => []

/-- A round that does not fail appends its keys, in iteration order. -/
theorem keys_step_running {r : Nat} {process : DescriptionMap} {keys : List Key}
    (h : ∀ err, step rd s (.running r process keys) ≠ .failed err) :
    (step rd s (.running r process keys)).keys =
      keys ++ (s.process r process.entries).map Sigma.fst := by
  cases hs : step rd s (.running r process keys) with
  | running r' process' keys' =>
    obtain ⟨_, _, _, he, -, rfl, -⟩ := step_eq_running hs
    cases he; rfl
  | done keys' =>
    rcases step_eq_done hs with he | ⟨_, _, _, he, -, rfl⟩
    · cases he
    · cases he; rfl
  | failed err => exact absurd hs (h err)

/-- Round `r` of a loop at `process` fails: it has relation fields, and its `RestrictedData`
call returns an error or data that rejects one of them. -/
def RoundFails (rd : RestrictedData) (s : Schedule) (r : Nat) (process : DescriptionMap) : Prop :=
  relations (s.process r process.entries) ≠ [] ∧
    ∀ data, rd r ((relations (s.process r process.entries)).map Prod.fst) = .ok data →
      ∃ e ∈ s.processed r (insertAll (relations (s.process r process.entries)) ∅).entries,
        Rejects data e.1 e.2

/-- A failing round returns an error. -/
theorem step_running_of_roundFails {r : Nat} {process : DescriptionMap} {keys : List Key}
    (h : RoundFails rd s r process) : ∃ err, step rd s (.running r process keys) = .failed err := by
  obtain ⟨hne, hrej⟩ := h
  simp only [step, drain_eq, List.nil_append, List.map_eq_nil_iff, hne, if_false]
  cases hd : rd r ((relations (s.process r process.entries)).map Prod.fst) with
  | error err => exact ⟨_, rfl⟩
  | ok data =>
    obtain ⟨e, he, hr⟩ := hrej data hd
    dsimp only
    cases hx : expand data (s.processed r (insertAll (relations (s.process r process.entries))
      ∅).entries) ∅ with
    | error err => exact ⟨err, rfl⟩
    | ok process' => exact absurd hr ((expand_eq_ok_iff.mp hx).1 e he)

end Step

/-- The loop before its first round: `b.keys = b.keys[:0]` empties the key list. -/
def start (s : Schedule) (bodies : List Body) : LoopState :=
  .running 0 (seed s bodies) []

/-- What `Update` has done to the builder once its loop has ended: the keys after the break,
or the error it returned with the key list emptied by the deferred closure; `none` while the loop
still runs. -/
def LoopState.result (b : Builder) : LoopState → Option (Builder × Option Error)
  | .running .. => none
  | .done keys => some ({ b with keys }, none)
  | .failed err => some ({ b with keys := [] }, some err)

/-- `Update`, run for at most `fuel` rounds: the builder after the call and the error it
returned, or `none` if the loop has not ended within `fuel` rounds. -/
def Builder.update (b : Builder) (restrictedData : RestrictedData) (s : Schedule) (fuel : Nat) :
    Option (Builder × Option Error) :=
  ((step restrictedData s)^[fuel] (start s b.bodies)).result b

/-- `newBuilder`: a builder of the bodies, with the keys of a first `Update`. -/
def newBuilder (restrictedData : RestrictedData) (s : Schedule) (fuel : Nat)
    (bodies : List Body) : Option (Except Error Builder) :=
  (({ bodies, keys := [] } : Builder).update restrictedData s fuel).map fun
    | (b, none) => .ok b
    | (_, some err) => .error (.wrap "build keys for the first time" err)

end Keysbuilder
