import OpenSlidesAutoupdate.Keysbuilder.Frame

/-!
# The connection engine

Modelled from the spec: `connection.go`, which holds `Connection.Next`, is not among the sources,
and its tests (`connection_test.go`) are. A connection owns a keysbuilder, the cursor of the
change stream it has consumed and `last`, the value it delivered last for each key the client
sees. Each call of `Next` is answered by the outside world (`Pass`): the stream wakes it, step 4
may run the builder's `Update`, and the restricted values of some keys are loaded.

## One call of `Next`

The first call, and a call whose cursor fell behind the stream, load every key of the builder and
deliver the visible ones. Any other call loads the candidates: the keys of the builder that were
announced dirty or that `last` does not hold. It compares each loaded value with `last`, emits
what changed, `null` for a key that became invisible, and `null` as well for every key of `last`
the builder no longer lists. The spec's step 8 loops back while the delta is empty; the tests of
this version expect `Next` to return the empty map (`TestConnectionFilterData`, and the case
`not exist->not exist` of `TestConnectionEmptyData`), and the model follows the tests.

An error leaves `last` and the cursor as they were. A failed `Update` empties the builder's keys
and leaves the connection errored: the first-call flag is set again, so the next call takes the
first-call path. It loads the builder's keys, none, and delivers them against nothing: it returns
the empty map and empties `last`, and the client keeps every value it held.

## What the client sees

A delta is exactly the change of `last` (`Delivers`): a key is in it iff its delivered value
changed, with the new value or `null`. So over a run in which the cursor is never lost and no
`Update` fails, a client that applies every delta it receives holds `last` after every call
(`Synced`), and no delta resends a value the client holds.

After a lost cursor the call delivers the visible keys against nothing, so the client still holds
every value of `last`, over every run (`Covers`), but a key that became invisible while the cursor
was lost is never sent as `null`, and the client keeps its old value.
-/

namespace Autoupdate

open Keysbuilder (Key Builder)

/-! ## Values and deltas -/

/-- Modelled from the spec: a restricted value as delivered, the bytes of a `json.RawMessage`. -/
abbrev Bytes := String

/-- Modelled from the spec: the restricted values of one load; `none` for a key that is absent
or null, because it does not exist or the user may not see it. -/
abbrev Restricted := Key → Option Bytes

/-- Modelled from the spec: `last`, the value delivered last for every key visible then. -/
abbrev Last := AList fun _ : Key ↦ Bytes

/-- Modelled from the spec: the map `Next` returns; `none` is the `null` of a key that became
invisible. -/
abbrev Delta := AList fun _ : Key ↦ Option Bytes

/-- Modelled from the spec, step 6: what `Next` emits for a key whose loaded value is `new` and
whose delivered value was `old`, or `none` to omit the key. -/
def compare : Option Bytes → Option Bytes → Option (Option Bytes)
  | none, none => none
  | none, some _ => some none
  | some v, old => if old = some v then none else some (some v)

/-- A key is emitted iff its value changed, and then with its new value. -/
theorem compare_eq (new old : Option Bytes) :
    compare new old = if new = old then none else some new := by
  cases new <;> cases old <;> simp [compare, eq_comm]

/-- `last[key] = value` for a visible value, `delete(last, key)` for an invisible one. -/
def setLast (last : Last) (key : Key) : Option Bytes → Last
  | none => last.erase key
  | some v => last.insert key v

@[simp] theorem lookup_setLast (last : Last) (key k : Key) (v : Option Bytes) :
    (setLast last key v).lookup k = if k = key then v else last.lookup k := by
  by_cases hk : k = key
  · subst hk
    cases v <;> simp [setLast]
  · cases v <;> simp [setLast, hk, AList.lookup_erase_ne, AList.lookup_insert_ne]

/-- Step 6 for one loaded key. -/
def emit (new : Restricted) (acc : Delta × Last) (key : Key) : Delta × Last :=
  match compare (new key) (acc.2.lookup key) with
  | none => acc
  | some v => (acc.1.insert key v, setLast acc.2 key v)

/-- Step 7 for one key of `last`: `null` and deleted if the builder no longer lists it. -/
def dropStale (keys : List Key) (acc : Delta × Last) (key : Key) : Delta × Last :=
  if key ∈ keys then acc else (acc.1.insert key none, acc.2.erase key)

/-- Modelled from the spec, steps 6 and 7: the delta and the new `last`, from the values loaded
for `candidate` and the keys the builder lists. -/
def deliver (keys candidate : List Key) (new : Restricted) (last : Last) : Delta × Last :=
  let acc := candidate.foldl (emit new) (∅, last)
  acc.2.keys.foldl (dropStale keys) acc

/-- Modelled from the spec, step 4: the keys of the builder that were announced dirty or that
`last` does not hold. -/
def candidates (keys dirty : List Key) (last : Last) : List Key :=
  keys.filter fun k ↦ k ∈ dirty ∨ k ∉ last

/-- `delta` is exactly the change from `last` to `last'`: a key is in it iff its delivered value
changed, with the new value, `none` for a key no longer visible. -/
def Delivers (last : Last) (delta : Delta) (last' : Last) : Prop :=
  ∀ k, delta.lookup k = if last'.lookup k = last.lookup k then none else some (last'.lookup k)

section Deliver

variable {new : Restricted} {keys candidate : List Key} {last : Last}

/-- After emitting the keys `seen`, the delta holds their changes and `last` their loaded values;
the other keys are untouched. -/
def Emitted (new : Restricted) (last : Last) (seen : List Key) (acc : Delta × Last) : Prop :=
  ∀ k, (k ∈ seen → acc.2.lookup k = new k ∧ acc.1.lookup k = compare (new k) (last.lookup k)) ∧
    (k ∉ seen → acc.2.lookup k = last.lookup k ∧ acc.1.lookup k = none)

theorem emitted_nil : Emitted new last [] (∅, last) :=
  fun _ ↦ ⟨fun h ↦ absurd h (List.not_mem_nil _), fun _ ↦ ⟨rfl, rfl⟩⟩

theorem Emitted.emit {seen : List Key} {acc : Delta × Last} (h : Emitted new last seen acc)
    (key : Key) : Emitted new last (seen ++ [key]) (emit new acc key) := by
  intro k
  simp only [List.mem_append, List.mem_singleton]
  unfold Autoupdate.emit
  by_cases hk : k = key
  · subst hk
    by_cases hs : k ∈ seen
    · rw [(h k).1 hs |>.1, compare_eq, if_pos rfl]
      exact ⟨fun _ ↦ (h k).1 hs, fun hn ↦ absurd (.inl hs) hn⟩
    · obtain ⟨hl, hd⟩ := (h k).2 hs
      refine ⟨fun _ ↦ ?_, fun hn ↦ absurd (.inr rfl) hn⟩
      rw [hl, compare_eq]
      split_ifs with he
      · exact ⟨hl.trans he.symm, hd⟩
      · simp
  · have hne : ¬(k ∈ seen ∨ k = key) ↔ k ∉ seen := by simp [hk]
    split <;> simp only [AList.lookup_insert_ne hk, lookup_setLast, if_neg hk, hne, or_false,
      hk] <;> exact h k

theorem emitted_foldl {seen : List Key} {acc : Delta × Last} (h : Emitted new last seen acc) :
    ∀ candidate : List Key,
      Emitted new last (seen ++ candidate) (candidate.foldl (Autoupdate.emit new) acc)
  | [] => by simpa using h
  | key :: candidate => by
    simpa using emitted_foldl (h.emit key) candidate

/-- After dropping from the keys `seen` those the builder no longer lists, they hold `null` in
the delta and nothing in `last`; the other keys are untouched. -/
def Dropped (keys : List Key) (acc₀ : Delta × Last) (seen : List Key) (acc : Delta × Last) :
    Prop :=
  ∀ k, (k ∈ seen → k ∉ keys → acc.2.lookup k = none ∧ acc.1.lookup k = some none) ∧
    ((k ∈ seen → k ∈ keys) → acc.2.lookup k = acc₀.2.lookup k ∧ acc.1.lookup k = acc₀.1.lookup k)

theorem dropped_nil (keys : List Key) (acc : Delta × Last) : Dropped keys acc [] acc :=
  fun _ ↦ ⟨fun h ↦ absurd h (List.not_mem_nil _), fun _ ↦ ⟨rfl, rfl⟩⟩

theorem Dropped.dropStale {acc₀ acc : Delta × Last} {seen : List Key}
    (h : Dropped keys acc₀ seen acc) (key : Key) :
    Dropped keys acc₀ (seen ++ [key]) (Autoupdate.dropStale keys acc key) := by
  intro k
  simp only [List.mem_append, List.mem_singleton]
  unfold Autoupdate.dropStale
  by_cases hk : k = key
  · subst hk
    split_ifs with hin
    · exact ⟨fun _ hn ↦ absurd hin hn, fun _ ↦ (h k).2 fun _ ↦ hin⟩
    · exact ⟨fun _ _ ↦ by simp, fun hs ↦ absurd (hs (.inr rfl)) hin⟩
  · have hor : ∀ P : Prop, (k ∈ seen ∨ k = key → P) ↔ (k ∈ seen → P) := fun P ↦ by simp [hk]
    rw [hor, hor]
    split_ifs
    · exact h k
    · simp only [AList.lookup_insert_ne hk, AList.lookup_erase_ne hk]
      exact h k

theorem dropped_foldl {acc₀ acc : Delta × Last} {seen : List Key}
    (h : Dropped keys acc₀ seen acc) : ∀ l : List Key,
      Dropped keys acc₀ (seen ++ l) (l.foldl (Autoupdate.dropStale keys) acc)
  | [] => by simpa using h
  | key :: l => by
    simpa using dropped_foldl (h.dropStale key) l

/-- What `deliver` does to every key: a loaded key takes its loaded value, a key the builder no
longer lists is dropped, and every other key keeps its delivered value; the delta holds exactly
the changes. -/
theorem lookup_deliver (hsub : ∀ k ∈ candidate, k ∈ keys) (k : Key) :
    (deliver keys candidate new last).2.lookup k =
        (if k ∈ candidate then new k else if k ∈ keys then last.lookup k else none) ∧
      (deliver keys candidate new last).1.lookup k =
        if k ∈ candidate then compare (new k) (last.lookup k)
        else if k ∈ keys then none else (last.lookup k).map fun _ ↦ none := by
  have he : Emitted new last candidate (candidate.foldl (emit new) (∅, last)) := by
    simpa using emitted_foldl emitted_nil candidate
  have hd : Dropped keys (candidate.foldl (emit new) (∅, last))
      (candidate.foldl (emit new) (∅, last)).2.keys (deliver keys candidate new last) := by
    simpa using dropped_foldl (dropped_nil keys _) _
  obtain ⟨hseen, hunseen⟩ := he k
  obtain ⟨hdrop, hkeep⟩ := hd k
  by_cases hc : k ∈ candidate
  · simp only [if_pos hc]
    obtain ⟨hl, hn⟩ := hkeep fun _ ↦ hsub k hc
    rw [hl, hn]
    exact hseen hc
  obtain ⟨hl₀, hn₀⟩ := hunseen hc
  simp only [if_neg hc]
  by_cases hkeys : k ∈ keys
  · simp only [if_pos hkeys]
    obtain ⟨hl, hn⟩ := hkeep fun _ ↦ hkeys
    rw [hl, hn, hl₀, hn₀]
    exact ⟨rfl, rfl⟩
  simp only [if_neg hkeys]
  by_cases hlast : k ∈ (candidate.foldl (emit new) (∅, last)).2.keys
  · obtain ⟨hl, hn⟩ := hdrop hlast hkeys
    obtain ⟨v, hv⟩ := Option.isSome_iff_exists.mp (AList.lookup_isSome.mpr hlast)
    rw [hl, hn, ← hl₀, hv]
    exact ⟨rfl, rfl⟩
  · obtain ⟨hl, hn⟩ := hkeep fun h ↦ absurd h hlast
    have hnone := AList.lookup_eq_none.mpr hlast
    rw [hl, hn, hn₀, hnone, ← hl₀, hnone]
    exact ⟨rfl, rfl⟩

/-- **The delta is the change.** `deliver` emits exactly the keys whose delivered value changed,
each with its new value. -/
theorem deliver_delivers (hsub : ∀ k ∈ candidate, k ∈ keys) :
    Delivers last (deliver keys candidate new last).1 (deliver keys candidate new last).2 := by
  intro k
  obtain ⟨hl, hd⟩ := @lookup_deliver new keys candidate last hsub k
  rw [hl, hd]
  by_cases hc : k ∈ candidate
  · simp only [if_pos hc, compare_eq]
  by_cases hkeys : k ∈ keys
  · simp [hc, hkeys]
  · cases last.lookup k <;> simp [hc, hkeys]

end Deliver

theorem mem_candidates {keys dirty : List Key} {last : Last} {k : Key} :
    k ∈ candidates keys dirty last ↔ k ∈ keys ∧ (k ∈ dirty ∨ k ∉ last) := by
  simp [candidates]

/-! ## One call of `Next` -/

/-- Modelled from the spec: the state of a connection between two calls of `Next`. The user id
only reaches the data provider, whose answers the calls take as arguments. -/
structure Connection where
  /-- The keysbuilder of the request. -/
  builder : Builder
  /-- The position of the change stream consumed last. -/
  cursor : Nat
  /-- The value delivered last for every key visible then. -/
  last : Last
  /-- Whether the next call takes the first-call path: before the first success of `Next`, and
  again after a failed `Update` (the errored state). -/
  firstCall : Bool

/-- Modelled from the spec: `Connect(uid, builder, cursor)`. -/
def connect (builder : Builder) (cursor : Nat) : Connection :=
  { builder, cursor, last := ∅, firstCall := true }

/-- Modelled from the spec: how `Subscribe` wakes a connection. -/
inductive Wakeup where
  /-- The keys announced dirty after the cursor, up to the new cursor. -/
  | notify (cursor : Nat) (dirty : List Key)
  /-- The cursor fell behind the history the stream retains. -/
  | lost (cursor : Nat)
  /-- The context was cancelled, or the server closed. -/
  | canceled

/-- Modelled from the spec: the answers of the outside world to one call of `Next`: the wake-up,
whether step 4 calls `Update` and over which answers of the data provider, and the restricted
values the call loads. Whether a dirty key is a relation field is the builder's knowledge, which
`Keys()` does not expose, so the pass says whether `Update` runs. -/
structure Pass where
  /-- What `Subscribe` returned. -/
  wakeup : Wakeup
  /-- The answers to a call of `Update` in step 4, if there is one. -/
  update : Option (Keysbuilder.RestrictedData × Keysbuilder.Schedule)
  /-- The restricted values of the keys loaded, or the error of the load. -/
  load : List Key → Except String Restricted

/-- Modelled from the spec: the errors of `Next`. -/
inductive NextError where
  /-- `Update` of the builder failed. -/
  | update (err : Keysbuilder.Error)
  /-- Loading the restricted values failed. -/
  | load (msg : String)
  /-- The context was cancelled, or the server closed. -/
  | canceled
  deriving Repr, DecidableEq

/-- Step 4: the builder after the `Update` the pass asks for, and its error. -/
def Pass.builder (p : Pass) (b : Builder) : Builder × Option Keysbuilder.Error :=
  match p.update with
  | none => (b, none)
  | some (rd, s) => b.updateAll rd s

/-- Modelled from the spec: the first call, and a call whose cursor was lost: load every key of
the builder and deliver the visible ones, with `last` rebuilt from nothing. -/
def resend (c : Connection) (cursor : Nat) (load : List Key → Except String Restricted) :
    Connection × Except NextError Delta :=
  match load c.builder.keys with
  | .error err => (c, .error (.load err))
  | .ok new =>
    let acc := deliver c.builder.keys c.builder.keys new ∅
    ({ c with cursor, last := acc.2, firstCall := false }, .ok acc.1)

/-- Modelled from the spec: `Next`, on the answers `p`: the connection after the call, and the
delta it returns or its error. -/
def next (c : Connection) (p : Pass) : Connection × Except NextError Delta :=
  if c.firstCall then resend c c.cursor p.load
  else match p.wakeup with
  | .canceled => (c, .error .canceled)
  | .lost cursor => resend c cursor p.load
  | .notify cursor dirty =>
    match p.builder c.builder with
    | (builder, some err) => ({ c with builder, firstCall := true }, .error (.update err))
    | (builder, none) =>
      let candidate := candidates builder.keys dirty c.last
      match p.load candidate with
      | .error err => ({ c with builder }, .error (.load err))
      | .ok new =>
        let acc := deliver builder.keys candidate new c.last
        ({ c with builder, cursor, last := acc.2 }, .ok acc.1)

section Next

variable {c c' : Connection} {p : Pass}

theorem resend_error {cursor : Nat} {load : List Key → Except String Restricted}
    {err : NextError} (h : resend c cursor load = (c', .error err)) : c' = c := by
  unfold resend at h
  split at h <;> simp only [Prod.mk.injEq, reduceCtorEq, and_false] at h
  exact h.1.symm

theorem resend_ok {cursor : Nat} {load : List Key → Except String Restricted} {delta : Delta}
    (h : resend c cursor load = (c', .ok delta)) :
    c'.firstCall = false ∧ c'.builder = c.builder ∧ c'.cursor = cursor ∧
      ∃ new, load c.builder.keys = .ok new ∧ Delivers ∅ delta c'.last ∧
        ∀ k, c'.last.lookup k = if k ∈ c.builder.keys then new k
          else if k ∈ c'.builder.keys then (∅ : Last).lookup k else none := by
  unfold resend at h
  split at h <;> simp only [Prod.mk.injEq, reduceCtorEq, and_false, Except.ok.injEq] at h
  rename_i new hl
  obtain ⟨rfl, rfl⟩ := h
  exact ⟨rfl, rfl, rfl, new, hl, deliver_delivers fun _ h ↦ h,
    fun k ↦ (lookup_deliver (fun _ h ↦ h) k).1⟩

/-- **Errors keep the delivered state.** A call of `Next` that fails leaves `last` and the cursor
as they were, and the first-call flag too unless its `Update` failed. -/
theorem next_error {err : NextError} (h : next c p = (c', .error err)) :
    c'.last = c.last ∧ c'.cursor = c.cursor ∧
      ((∀ e, err ≠ .update e) → c'.firstCall = c.firstCall) := by
  unfold next at h
  split at h
  · rw [resend_error h]; exact ⟨rfl, rfl, fun _ ↦ rfl⟩
  split at h
  · cases h; exact ⟨rfl, rfl, fun _ ↦ rfl⟩
  · rw [resend_error h]; exact ⟨rfl, rfl, fun _ ↦ rfl⟩
  split at h
  · cases h; exact ⟨rfl, rfl, fun hu ↦ absurd rfl (hu _)⟩
  dsimp only at h
  split at h
  · cases h; exact ⟨rfl, rfl, fun _ ↦ rfl⟩
  · cases h

/-- **Delta correctness.** A call of `Next` that returns a delta loads the values of some
candidate keys and returns exactly the change of `last` against a base: nothing for the first
call and after a lost cursor, where every key of the builder is loaded, and `last` itself for an
ordinary call. Afterwards a loaded key holds its loaded value, a key the builder no longer lists
is dropped, and every other key keeps its value in the base. -/
theorem next_ok {delta : Delta} (h : next c p = (c', .ok delta)) :
    c'.firstCall = false ∧ ∃ base candidate new, p.load candidate = .ok new ∧
      Delivers base delta c'.last ∧
      (∀ k, c'.last.lookup k = if k ∈ candidate then new k
        else if k ∈ c'.builder.keys then base.lookup k else none) ∧
      (((c.firstCall = true ∧ c'.cursor = c.cursor) ∨
            (c.firstCall = false ∧ p.wakeup = .lost c'.cursor)) ∧
          base = ∅ ∧ candidate = c.builder.keys ∧ c'.builder = c.builder ∨
        ∃ dirty, c.firstCall = false ∧ p.wakeup = .notify c'.cursor dirty ∧ base = c.last ∧
          candidate = candidates c'.builder.keys dirty c.last ∧
          p.builder c.builder = (c'.builder, none)) := by
  unfold next at h
  split at h
  · obtain ⟨hf, hb, hc, new, hl, hd, hlk⟩ := resend_ok h
    exact ⟨hf, ∅, _, new, hl, hd, hlk, .inl ⟨.inl ⟨‹_›, hc⟩, rfl, rfl, hb⟩⟩
  have hfirst : c.firstCall = false := by simpa using ‹¬c.firstCall = true›
  split at h
  · cases h
  · obtain ⟨hf, hb, hc, new, hl, hd, hlk⟩ := resend_ok h
    exact ⟨hf, ∅, _, new, hl, hd, hlk, .inl ⟨.inr ⟨hfirst, hc ▸ ‹_›⟩, rfl, rfl, hb⟩⟩
  rename_i cursor dirty hw
  split at h
  · cases h
  rename_i builder hb
  dsimp only at h
  split at h
  · cases h
  rename_i new hl
  simp only [Prod.mk.injEq, Except.ok.injEq] at h
  obtain ⟨rfl, rfl⟩ := h
  have hsub : ∀ k ∈ candidates builder.keys dirty c.last, k ∈ builder.keys :=
    fun _ hk ↦ (mem_candidates.mp hk).1
  exact ⟨hfirst, c.last, _, new, hl, deliver_delivers hsub, fun k ↦ (lookup_deliver hsub k).1,
    .inr ⟨dirty, hfirst, hw, rfl, rfl, hb⟩⟩

/-- The restricted values of the two keys of `TestConnectionEmptyData`, `user/1/name` and
`doesnot/1/exist`. -/
def emptyData (exist notExist : Option Bytes) : Restricted := fun k ↦
  if k = "user/1/name" then exist else if k = "doesnot/1/exist" then notExist else none

/-- The second response of `TestConnectionEmptyData`, after an update of the two keys: whether
each key is in it. -/
def emptyDataResponse (exist notExist : Option Bytes) : Option (Bool × Bool) :=
  let c := connect { bodies := [], keys := ["user/1/name", "doesnot/1/exist"] } 0
  let first := next c ⟨.notify 0 [], none, fun _ ↦ .ok (emptyData (some "exist") none)⟩
  let second := next first.1
    ⟨.notify 1 ["user/1/name", "doesnot/1/exist"], none, fun _ ↦ .ok (emptyData exist notExist)⟩
  second.2.toOption.map fun d ↦ ((d.lookup "user/1/name").isSome,
    (d.lookup "doesnot/1/exist").isSome)

/-- The cases `not exist->not exist`, `not exist->exist`, `exist->not exist` and `exist->exist`
of `TestConnectionEmptyData`. -/
example : emptyDataResponse (some "exist") none = some (false, false) ∧
    emptyDataResponse (some "exist") (some "value") = some (false, true) ∧
    emptyDataResponse none none = some (true, false) ∧
    emptyDataResponse (some "new value") none = some (true, false) := by
  decide

/-- **A failed `Update` leaves the connection errored.** Only an ordinary call on a pass that asks
for it runs `Update`; when it fails, the builder keeps its bodies and no keys, and the next call
takes the first-call path. -/
theorem next_update_error {err : Keysbuilder.Error} (h : next c p = (c', .error (.update err))) :
    c.firstCall = false ∧ p.update ≠ none ∧ c'.firstCall = true ∧
      c'.builder = { c.builder with keys := [] } := by
  have hresend : ∀ cursor load, resend c cursor load ≠ (c', .error (.update err)) :=
    fun _ _ ↦ by unfold resend; split <;> simp
  unfold next at h
  split at h
  · exact absurd h (hresend _ _)
  rename_i hfirst
  split at h
  · cases h
  · exact absurd h (hresend _ _)
  split at h
  · rename_i builder err' hb
    simp only [Prod.mk.injEq] at h
    obtain ⟨rfl, -⟩ := h
    unfold Pass.builder at hb
    split at hb
    · cases hb
    · rename_i hu
      exact ⟨by simpa using hfirst, by simp [hu], rfl, Keysbuilder.updateAll_of_error hb⟩
  dsimp only at h
  split at h <;> cases h

theorem bodies_passBuilder (p : Pass) (b : Builder) : (p.builder b).1.bodies = b.bodies := by
  unfold Pass.builder
  split
  · rfl
  · exact Keysbuilder.bodies_updateAll b

/-- `Next` changes the builder's keys only: the request stays the same. -/
theorem bodies_next : (next c p).1.builder.bodies = c.builder.bodies := by
  cases hr : next c p with
  | mk c' r =>
    unfold next at hr
    split at hr
    · unfold resend at hr
      split at hr <;> cases hr <;> rfl
    split at hr
    · cases hr; rfl
    · unfold resend at hr
      split at hr <;> cases hr <;> rfl
    split at hr
    · rename_i builder err hb
      cases hr
      exact (congrArg (·.1.bodies) hb).symm.trans (bodies_passBuilder p c.builder)
    · rename_i builder hb
      dsimp only at hr
      have hbodies := (congrArg (·.1.bodies) hb).symm.trans (bodies_passBuilder p c.builder)
      split at hr <;> cases hr <;> exact hbodies

/-- A call that fails to load leaves the connection as it was, but for the builder that a
successful `Update` of an ordinary call made. -/
theorem next_load_error {msg : String} (h : next c p = (c', .error (.load msg))) :
    c' = c ∨ c.firstCall = false ∧ c' = { c with builder := c'.builder } ∧
      (p.builder c.builder).1 = c'.builder := by
  unfold next at h
  split at h
  · exact .inl (resend_error h)
  have hfirst : c.firstCall = false := by simpa using ‹¬c.firstCall = true›
  split at h
  · cases h
  · exact .inl (resend_error h)
  split at h
  · cases h
  rename_i builder hb
  dsimp only at h
  split at h
  · cases h
    exact .inr ⟨hfirst, rfl, by rw [hb]⟩
  · cases h

/-- A call of `Next` sees its pass only through the wake-up, the builder after step 4 and the
loads. -/
theorem next_congr_pass {p' : Pass} (hw : p.wakeup = p'.wakeup)
    (hb : p.builder c.builder = p'.builder c.builder) (hl : p.load = p'.load) :
    next c p = next c p' := by
  unfold next
  rw [hw, hb, hl]

/-- **A failed load is retried cleanly.** A call of `Next` that fails to load changes the
connection at most by the builder a successful `Update` of the call made. So an ordinary later
call that reruns `Update`, on any answers and in any orders, returns the same and leaves the
connection in the same state as it would have had the failed call not happened. -/
theorem next_after_load_error {c' : Connection} {p' : Pass} {msg : String}
    (h : next c p = (c', .error (.load msg))) {cursor : Nat} {dirty : List Key}
    (hw : p'.wakeup = .notify cursor dirty) (hu : p'.update ≠ none) :
    next c' p' = next c p' := by
  rcases next_load_error h with rfl | ⟨hfirst, hc', hb⟩
  · rfl
  obtain ⟨⟨rd, s⟩, hu'⟩ := Option.ne_none_iff_exists'.mp hu
  have hbuilder : p'.builder c'.builder = p'.builder c.builder := by
    simp only [Pass.builder, hu']
    exact Keysbuilder.updateAll_eq_of_bodies (hb ▸ bodies_passBuilder p c.builder)
  obtain ⟨builder, cursor₀, last, firstCall⟩ := c
  simp only at hfirst
  subst hfirst
  rw [hc']
  unfold next
  simp only [Bool.false_eq_true, if_false, hw, hbuilder]

/-- After a success, a call of `Next` whose `Update` does not fail is no first call. -/
theorem firstCall_next (h : c.firstCall = false)
    (hu : ∀ err, (next c p).2 ≠ .error (.update err)) : (next c p).1.firstCall = false := by
  cases hr : next c p with
  | mk c' r =>
    rw [hr] at hu
    cases r with
    | error err => exact ((next_error hr).2.2 fun e he ↦ hu e (by rw [he])).trans h
    | ok delta => exact (next_ok hr).1

end Next

/-- A connection to `Keysbuilder.parentRequest` whose builder holds no keys yet. -/
def parentConnection₀ : Connection :=
  { builder := { bodies := Keysbuilder.parentRequest, keys := [] }, cursor := 0, last := ∅,
    firstCall := false }

/-- A wake-up for `motion/1/parent_id` at position `now`, whose `Update` reads
`Keysbuilder.parentData` and whose loads give `load`. -/
def parentPass (now : Nat) (load : List Key → Except String Restricted) : Pass :=
  ⟨.notify now ["motion/1/parent_id"], some (Keysbuilder.answering Keysbuilder.parentData, .inOrder),
    load⟩

theorem next_after_load_error_parent :
    ∃ c' msg, next parentConnection₀ (parentPass 1 fun _ ↦ .error "load failed") =
        (c', .error (.load msg)) ∧ c'.builder.keys ≠ parentConnection₀.builder.keys ∧
      next c' (parentPass 2 fun _ ↦ .ok fun _ ↦ none) =
        next parentConnection₀ (parentPass 2 fun _ ↦ .ok fun _ ↦ none) := by
  obtain ⟨c', msg, h⟩ : ∃ c' msg, next parentConnection₀ (parentPass 1 fun _ ↦
      .error "load failed") = (c', .error (.load msg)) := ⟨_, _, rfl⟩
  have hb : c'.builder.keys ≠ parentConnection₀.builder.keys := by
    cases h
    decide
  exact ⟨c', msg, h, hb, next_after_load_error h rfl (by simp [parentPass])⟩

/-! ## What the client sees -/

/-- The values a client holds, `none` where it holds nothing. -/
abbrev View := Key → Option Bytes

/-- A client applies a delta: it takes each value the delta holds and forgets a key sent as
`null`. -/
def View.apply (view : View) (delta : Delta) : View := fun k ↦ (delta.lookup k).getD (view k)

/-- A client that holds `last` and applies a delta of the change holds the new `last`. -/
theorem View.apply_of_delivers {last last' : Last} {delta : Delta} (h : Delivers last delta last') :
    View.apply (fun k ↦ last.lookup k) delta = fun k ↦ last'.lookup k := by
  funext k
  simp only [View.apply, h k]
  split_ifs with he
  · exact he.symm
  · rfl

/-- A run of calls of `Next`, each answered by the outside world as it finds the connection (the
stream answers `Subscribe(cursor)` from the connection's cursor): the connection after the calls
and what each call returned. -/
def run (c : Connection) : List (Connection → Pass) → Connection × List (Except NextError Delta)
  | [] => (c, [])
  | p :: ps =>
    let r := next c (p c)
    let rs := run r.1 ps
    (rs.1, r.2 :: rs.2)

/-- The last call of a run. -/
theorem run_append_singleton (c : Connection) (ps : List (Connection → Pass))
    (p : Connection → Pass) :
    run c (ps ++ [p]) = ((next (run c ps).1 (p (run c ps).1)).1,
      (run c ps).2 ++ [(next (run c ps).1 (p (run c ps).1)).2]) := by
  induction ps generalizing c with
  | nil => rfl
  | cons q ps ih =>
    rw [List.cons_append]
    change ((run (next c (q c)).1 (ps ++ [p])).1,
      (next c (q c)).2 :: (run (next c (q c)).1 (ps ++ [p])).2) = _
    rw [ih]
    rfl

theorem bodies_run (c : Connection) (ps : List (Connection → Pass)) :
    (run c ps).1.builder.bodies = c.builder.bodies := by
  induction ps generalizing c with
  | nil => rfl
  | cons p ps ih => exact (ih _).trans bodies_next

/-- No failed `Update` in a run: none in its first call, none in the rest. -/
theorem update_error_not_mem_run_cons {c : Connection} {p : Connection → Pass}
    {ps : List (Connection → Pass)} (hu : ∀ err, .error (.update err) ∉ (run c (p :: ps)).2) :
    (∀ err, (next c (p c)).2 ≠ .error (.update err)) ∧
      ∀ err, .error (.update err) ∉ (run (next c (p c)).1 ps).2 :=
  ⟨fun err he ↦ hu err (by rw [← he]; exact List.mem_cons_self _ _),
    fun err hm ↦ hu err (List.mem_cons_of_mem _ hm)⟩

/-- A run whose calls never ask for `Update` has no failed `Update`. -/
theorem update_error_not_mem_run {c : Connection} {ps : List (Connection → Pass)}
    (hn : ∀ p ∈ ps, ∀ c, (p c).update = none) (err : Keysbuilder.Error) :
    .error (.update err) ∉ (run c ps).2 := by
  induction ps generalizing c with
  | nil => exact List.not_mem_nil _
  | cons p ps ih =>
    refine List.not_mem_cons_of_ne_of_not_mem (fun he ↦ ?_) (ih fun q hq ↦ hn q (.tail _ hq))
    have hnext : next c (p c) = ((next c (p c)).1, .error (.update err)) := Prod.ext rfl he.symm
    exact (next_update_error hnext).2.1 (hn p (.head _) c)

theorem firstCall_run_of_false {c : Connection} (h : c.firstCall = false)
    (ps : List (Connection → Pass)) (hu : ∀ err, .error (.update err) ∉ (run c ps).2) :
    (run c ps).1.firstCall = false := by
  induction ps generalizing c with
  | nil => exact h
  | cons p ps ih =>
    obtain ⟨hp, hps⟩ := update_error_not_mem_run_cons hu
    exact ih (firstCall_next h hp) hps

/-- After a run with a successful call and no failed `Update`, `Next` is no first call. -/
theorem firstCall_run_of_ok {c : Connection} {ps : List (Connection → Pass)} {delta : Delta}
    (h : .ok delta ∈ (run c ps).2) (hu : ∀ err, .error (.update err) ∉ (run c ps).2) :
    (run c ps).1.firstCall = false := by
  induction ps generalizing c with
  | nil => cases h
  | cons p ps ih =>
    obtain ⟨-, hps⟩ := update_error_not_mem_run_cons hu
    rcases List.mem_cons.mp h with h | h
    · cases hr : next c (p c) with
      | mk c' r =>
        simp only [run, hr] at h hps ⊢
        subst h
        exact firstCall_run_of_false (next_ok hr).1 ps hps
    · exact ih h hps

/-- What a client holds after applying the deltas of the successful calls. -/
def View.applyAll (view : View) : List (Except NextError Delta) → View
  | [] => view
  | .ok delta :: rs => (view.apply delta).applyAll rs
  | .error _ :: rs => view.applyAll rs

/-- The client holds `last`, and `last` is empty while the next call takes the first-call path:
before the first success, over a run without a failed `Update`. -/
def Synced (view : View) (c : Connection) : Prop :=
  (c.firstCall = true → c.last = ∅) ∧ view = fun k ↦ c.last.lookup k

section Client

variable {c : Connection} {p : Pass}

theorem synced_next {view : View} (hs : Synced view c) (hl : ∀ cursor, p.wakeup ≠ .lost cursor)
    (hu : ∀ err, (next c p).2 ≠ .error (.update err)) :
    Synced (match (next c p).2 with
      | .ok delta => view.apply delta
      | .error _ => view) (next c p).1 := by
  obtain ⟨hfresh, rfl⟩ := hs
  cases hr : next c p with
  | mk c' r =>
    rw [hr] at hu
    cases r with
    | error err =>
      obtain ⟨hlast, -, hfirst⟩ := next_error hr
      have hfirst := hfirst fun e he ↦ hu e (by rw [he])
      exact ⟨fun h ↦ hlast ▸ hfresh (hfirst ▸ h), by rw [hlast]⟩
    | ok delta =>
      obtain ⟨hfirst, base, _, _, -, hd, -, ⟨⟨hf, -⟩ | ⟨-, hw⟩, rfl, -⟩ | ⟨_, -, -, rfl, -⟩⟩ :=
        next_ok hr
      · refine ⟨fun h ↦ absurd (hfirst ▸ h) (by simp), ?_⟩
        rw [hfresh hf]
        exact View.apply_of_delivers hd
      · exact absurd hw (hl _)
      · exact ⟨fun h ↦ absurd (hfirst ▸ h) (by simp), View.apply_of_delivers hd⟩

/-- A client that holds `last` keeps holding it over a run in which the cursor is never lost and
no `Update` fails. -/
theorem synced_run {view : View} (hs : Synced view c) (ps : List (Connection → Pass))
    (hl : ∀ p ∈ ps, ∀ c cursor, (p c).wakeup ≠ .lost cursor)
    (hu : ∀ err, .error (.update err) ∉ (run c ps).2) :
    Synced (View.applyAll view (run c ps).2) (run c ps).1 := by
  induction ps generalizing c view with
  | nil => exact hs
  | cons p ps ih =>
    obtain ⟨hp, hps⟩ := update_error_not_mem_run_cons hu
    have hstep := synced_next hs (hl p (List.mem_cons_self _ _) c) hp
    have hrest := ih hstep (fun q hq ↦ hl q (List.mem_cons_of_mem _ hq)) hps
    simp only [run]
    revert hstep hrest
    cases (next c (p c)).2 <;> intro _ h <;> exact h

/-- **The client holds what was delivered.** A client that starts with nothing and applies every
delta `Next` returns holds `last` after every run from a new connection in which the cursor is
never lost and no `Update` fails. -/
theorem run_client_view (builder : Builder) (cursor : Nat) (ps : List (Connection → Pass))
    (hl : ∀ p ∈ ps, ∀ c cursor, (p c).wakeup ≠ .lost cursor)
    (hu : ∀ err, .error (.update err) ∉ (run (connect builder cursor) ps).2) :
    View.applyAll (fun _ ↦ none) (run (connect builder cursor) ps).2 =
      fun k ↦ (run (connect builder cursor) ps).1.last.lookup k :=
  (synced_run (show Synced (fun _ ↦ none) (connect builder cursor) from
    ⟨fun _ ↦ rfl, funext fun _ ↦ rfl⟩) ps hl hu).2

/-- A successful call delivers the change against nothing, on a first call or after a lost
cursor, or against `last`. -/
theorem next_ok_base {c' : Connection} {delta : Delta} (h : next c p = (c', .ok delta)) :
    ∃ base, Delivers base delta c'.last ∧
      (base = ∅ ∧ (c.firstCall = true ∨ ∃ cursor, p.wakeup = .lost cursor) ∨ base = c.last) := by
  obtain ⟨-, base, _, _, -, hd, -, hcase⟩ := next_ok h
  refine ⟨base, hd, ?_⟩
  rcases hcase with ⟨⟨hf, -⟩ | ⟨-, hw⟩, hb, -⟩ | ⟨_, -, -, hb, -⟩
  · exact .inl ⟨hb, .inl hf⟩
  · exact .inl ⟨hb, .inr ⟨_, hw⟩⟩
  · exact .inr hb

/-- The client holds every value of `last`; it may hold more. -/
def Covers (view : View) (c : Connection) : Prop :=
  ∀ k v, c.last.lookup k = some v → view k = some v

/-- Every call keeps `Covers`, a call after a lost cursor too: it delivers every value of the new
`last` against nothing, and any other call delivers every change against `last`. -/
theorem covers_next {view : View} (hs : Covers view c) :
    Covers (match (next c p).2 with
      | .ok delta => view.apply delta
      | .error _ => view) (next c p).1 := by
  cases hr : next c p with
  | mk c' r =>
    cases r with
    | error err =>
      intro k v hv
      exact hs k v ((next_error hr).1 ▸ hv)
    | ok delta =>
      obtain ⟨base, hd, hbase⟩ := next_ok_base hr
      intro k v hv
      simp only [View.apply, hd k, hv]
      split_ifs with he
      · rcases hbase with ⟨rfl, -⟩ | rfl
        · simp at he
        · exact hs k v he.symm
      · rfl

/-- `Covers` over a run, lost cursors included. -/
theorem covers_run {view : View} (hs : Covers view c) (ps : List (Connection → Pass)) :
    Covers (View.applyAll view (run c ps).2) (run c ps).1 := by
  induction ps generalizing c view with
  | nil => exact hs
  | cons p ps ih =>
    have hrest := ih (covers_next (p := p c) hs)
    simp only [run]
    revert hrest
    cases (next c (p c)).2 <;> exact id

/-- **The client holds what was delivered, lost cursors included.** Over every run of `Next` on a
new connection, a client that applies every delta holds the value of every key in `last`. -/
theorem run_client_covers (builder : Builder) (cursor : Nat) (ps : List (Connection → Pass))
    {k : Key} {v : Bytes} (hv : (run (connect builder cursor) ps).1.last.lookup k = some v) :
    View.applyAll (fun _ ↦ none) (run (connect builder cursor) ps).2 k = some v :=
  covers_run (fun _ _ h ↦ by simp [connect] at h) ps k v hv

/-- **No duplicated update.** In a run of `Next` on a new connection in which the cursor is never
lost and no `Update` fails, every value a delta carries differs from what the client holds when it
receives it: a new value for a key whose value changed, and `null` only for a key the client
holds. So a key that becomes invisible is sent as `null` once, and not again until it is visible
again. -/
theorem run_delta_ne_view (builder : Builder) (cursor : Nat) (ps : List (Connection → Pass))
    (p : Connection → Pass) (hl : ∀ q ∈ ps, ∀ c cursor', (q c).wakeup ≠ .lost cursor')
    (hu : ∀ err, .error (.update err) ∉ (run (connect builder cursor) ps).2)
    (hp : ∀ cursor', (p (run (connect builder cursor) ps).1).wakeup ≠ .lost cursor')
    {delta : Delta}
    (h : (next (run (connect builder cursor) ps).1 (p (run (connect builder cursor) ps).1)).2 =
      .ok delta)
    {k : Key} {v : Option Bytes} (hk : delta.lookup k = some v) :
    View.applyAll (fun _ ↦ none) (run (connect builder cursor) ps).2 k ≠ v := by
  set c := (run (connect builder cursor) ps).1
  obtain ⟨hfresh, hview⟩ := synced_run (show Synced (fun _ ↦ none) (connect builder cursor) from
    ⟨fun _ ↦ rfl, funext fun _ ↦ rfl⟩) ps hl hu
  have hnext : next c (p c) = ((next c (p c)).1, .ok delta) := Prod.ext rfl h
  obtain ⟨base, hd, hcase⟩ := next_ok_base hnext
  have hbase : base = c.last := by
    rcases hcase with ⟨rfl, hf | ⟨_, hw⟩⟩ | rfl
    · exact (hfresh hf).symm
    · exact absurd hw (hp _)
    · rfl
  rw [hd k, hbase] at hk
  rw [hview]
  split_ifs at hk with hne
  exact fun he ↦ hne ((Option.some_inj.mp hk).symm ▸ he.symm)

end Client

/-- The two calls of `TestConnectionEmptyData`'s case `exist->not exist`. -/
def emptyDataPasses : List (Connection → Pass) :=
  [fun _ ↦ ⟨.notify 0 [], none, fun _ ↦ .ok (emptyData (some "exist") none)⟩,
    fun _ ↦ ⟨.notify 1 ["user/1/name", "doesnot/1/exist"], none,
      fun _ ↦ .ok (emptyData none none)⟩]

theorem run_client_view_empty_data :
    (∀ p ∈ emptyDataPasses, ∀ c cursor, (p c).wakeup ≠ .lost cursor) ∧
      (∀ err, .error (.update err) ∉
        (run (connect { bodies := [], keys := ["user/1/name", "doesnot/1/exist"] } 0)
          emptyDataPasses).2) ∧
      View.applyAll (fun _ ↦ none)
        (run (connect { bodies := [], keys := ["user/1/name", "doesnot/1/exist"] } 0)
          emptyDataPasses).2 =
        fun k ↦ (run (connect { bodies := [], keys := ["user/1/name", "doesnot/1/exist"] } 0)
          emptyDataPasses).1.last.lookup k := by
  have hpasses : ∀ p ∈ emptyDataPasses, ∀ c, (p c).update = none ∧
      ∀ cursor, (p c).wakeup ≠ .lost cursor := by
    intro p hp c
    simp only [emptyDataPasses, List.mem_cons, List.mem_singleton, List.not_mem_nil,
      or_false] at hp
    rcases hp with rfl | rfl <;> exact ⟨rfl, fun _ h ↦ by cases h⟩
  have hl : ∀ p ∈ emptyDataPasses, ∀ c cursor, (p c).wakeup ≠ .lost cursor :=
    fun p hp c ↦ (hpasses p hp c).2
  have hu := update_error_not_mem_run (c := connect
    { bodies := [], keys := ["user/1/name", "doesnot/1/exist"] } 0) fun p hp c ↦ (hpasses p hp c).1
  exact ⟨hl, hu, run_client_view _ 0 emptyDataPasses hl hu⟩

theorem run_delta_ne_view_empty_data :
    ∃ delta, (next (run (connect { bodies := [], keys := ["user/1/name", "doesnot/1/exist"] } 0)
        (emptyDataPasses.take 1)).1 (emptyDataPasses[1] (run (connect
          { bodies := [], keys := ["user/1/name", "doesnot/1/exist"] } 0)
            (emptyDataPasses.take 1)).1)).2 = .ok delta ∧
      delta.lookup "user/1/name" = some none ∧
      View.applyAll (fun _ ↦ none) (run (connect
        { bodies := [], keys := ["user/1/name", "doesnot/1/exist"] } 0)
          (emptyDataPasses.take 1)).2 "user/1/name" ≠ none := by
  obtain ⟨delta, h⟩ : ∃ delta, (next (run (connect
      { bodies := [], keys := ["user/1/name", "doesnot/1/exist"] } 0) (emptyDataPasses.take 1)).1
      (emptyDataPasses[1] (run (connect { bodies := [], keys := ["user/1/name", "doesnot/1/exist"] }
        0) (emptyDataPasses.take 1)).1)).2 = .ok delta := ⟨_, rfl⟩
  have hk : delta.lookup "user/1/name" = some none := by
    cases h
    decide
  have hfirst : ∀ q ∈ emptyDataPasses.take 1, q = emptyDataPasses[0] := by
    simp [emptyDataPasses]
  have hl : ∀ q ∈ emptyDataPasses.take 1, ∀ c cursor', (q c).wakeup ≠ .lost cursor' :=
    fun q hq _ _ hw ↦ by rw [hfirst q hq] at hw; cases hw
  have hu := update_error_not_mem_run (c := connect
    { bodies := [], keys := ["user/1/name", "doesnot/1/exist"] } 0)
    fun q hq _ ↦ by rw [hfirst q hq]; rfl
  exact ⟨delta, h, hk, run_delta_ne_view _ 0 (emptyDataPasses.take 1) emptyDataPasses[1] hl hu
    (fun _ hw ↦ by cases hw) h hk⟩

/-- A first call that delivers both keys of `TestConnectionEmptyData`, then a lost cursor after
which only `user/1/name` is visible. -/
def lostPasses : List (Connection → Pass) :=
  [fun _ ↦ ⟨.notify 0 [], none, fun _ ↦ .ok (emptyData (some "exist") (some "value"))⟩,
    fun _ ↦ ⟨.lost 1, none, fun _ ↦ .ok (emptyData (some "new") none)⟩]

theorem run_client_covers_lost :
    (run (connect { bodies := [], keys := ["user/1/name", "doesnot/1/exist"] } 0)
        lostPasses).1.last.lookup "user/1/name" = some "new" ∧
      View.applyAll (fun _ ↦ none) (run (connect
        { bodies := [], keys := ["user/1/name", "doesnot/1/exist"] } 0) lostPasses).2
        "user/1/name" = some "new" := by
  have hv : (run (connect { bodies := [], keys := ["user/1/name", "doesnot/1/exist"] } 0)
      lostPasses).1.last.lookup "user/1/name" = some "new" := by decide
  exact ⟨hv, run_client_covers _ 0 lostPasses hv⟩

/-- After the lost cursor the client still holds `doesnot/1/exist`, which is no longer visible:
the resend delivers the visible keys only. -/
example : (run (connect { bodies := [], keys := ["user/1/name", "doesnot/1/exist"] } 0)
      lostPasses).1.last.lookup "doesnot/1/exist" = none ∧
    View.applyAll (fun _ ↦ none) (run (connect
      { bodies := [], keys := ["user/1/name", "doesnot/1/exist"] } 0) lostPasses).2
      "doesnot/1/exist" = some "value" := by
  decide

end Autoupdate
