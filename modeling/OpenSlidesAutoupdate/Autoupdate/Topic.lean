import Mathlib.Data.List.Sort
import OpenSlidesAutoupdate.Autoupdate.Connection

/-!
# Delivered values are current

Modelled from the spec: the change stream (the topic) is not among the sources. It is a log of
batches of keys that may have changed, each at a position; `Subscribe(cursor)` returns the keys
of the batches after `cursor`, and the publisher names in each batch every key whose restricted
value it changed. `Topic` pairs the stream with the restricted data it announces.

## The stream

A key whose restricted value at position `now` differs from its value at some position `t` at
or after the cursor was named by a batch between `t` and `now`, so `Subscribe(cursor)` at `now`
returns it (`Topic.mem_dirty_of_ne`).

## Freshness

A connection served by the stream keeps the invariant `Current`: every value of `last` is the
restricted value at a position at or after its cursor, not later than the stream. A failed call
changes neither `last` nor the cursor. A successful call loads the keys of the builder that were
announced or that `last` does not hold; a key it does not load was not announced, so its value in
`last` is still current. After every successful call at position `now`, `last` therefore holds
exactly the restricted values at `now` of the keys the builder lists (`serve_fresh`).
-/

namespace Autoupdate

open Keysbuilder (Key Builder)

/-! ## The stream -/

/-- Modelled from the spec: the change stream with the restricted data it announces. `data t` is
the restricted data after the first `t` batches, and batch `t` names every key whose restricted
value it changed. -/
structure Topic where
  /-- The restricted data after the first `t` batches. -/
  data : Nat → Restricted
  /-- The keys of batch `t`. -/
  batch : Nat → List Key
  /-- The publisher announces every change. -/
  announces : ∀ t k, data (t + 1) k ≠ data t k → k ∈ batch t

/-- Modelled from the spec: what `Subscribe(cursor)` returns at position `now`, the keys of the
batches from `cursor` on. -/
def Topic.dirty (topic : Topic) (cursor now : Nat) : List Key :=
  (List.range' cursor (now - cursor)).flatMap topic.batch

/-- A key whose value changed between positions `t` and `now` is announced after any cursor up to
`t`. -/
theorem Topic.mem_dirty_of_ne {topic : Topic} {cursor t now : Nat} {k : Key} (hc : cursor ≤ t)
    (ht : t ≤ now) (hne : topic.data now k ≠ topic.data t k) : k ∈ topic.dirty cursor now := by
  obtain ⟨d, rfl⟩ := Nat.exists_eq_add_of_le ht
  induction d with
  | zero => exact absurd rfl hne
  | succ d ih =>
    by_cases h : topic.data (t + d) k = topic.data t k
    · have hk : k ∈ topic.batch (t + d) :=
        topic.announces (t + d) k (by rwa [← h, ← Nat.add_assoc] at hne)
      exact List.mem_flatMap.mpr ⟨t + d, List.mem_range'_1.mpr ⟨by omega, by omega⟩, hk⟩
    · obtain ⟨s, hs, hk⟩ := List.mem_flatMap.mp (ih (by omega) h)
      refine List.mem_flatMap.mpr ⟨s, ?_, hk⟩
      rw [List.mem_range'_1] at hs ⊢
      omega

/-- Modelled from the spec: what happens to a connection waiting in `Next`. -/
inductive Event where
  /-- The stream wakes the connection at position `now`; step 4 runs `Update` over `update`, if
  given, and the loads read the data at `now`, or fail with `loadError`. -/
  | wake (now : Nat) (update : Option (Keysbuilder.RestrictedData × Keysbuilder.Schedule))
      (loadError : Option String)
  /-- The stream reports at position `now` that the cursor fell behind its history. -/
  | lost (now : Nat) (loadError : Option String)
  /-- The context is cancelled, or the server closes. -/
  | cancel

/-- The position of the stream at an event. -/
def Event.time : Event → Option Nat
  | .wake now _ _ | .lost now _ => some now
  | .cancel => none

/-- The loads of a call at position `now`. -/
def Topic.load (topic : Topic) (now : Nat) : Option String → List Key → Except String Restricted
  | some msg => fun _ ↦ .error msg
  | none => fun _ ↦ .ok (topic.data now)

/-- The answers of the outside world to a call of `Next` by a connection at `cursor`. -/
def Event.pass (topic : Topic) (cursor : Nat) : Event → Pass
  | .wake now update err => ⟨.notify now (topic.dirty cursor now), update, topic.load now err⟩
  | .lost now err => ⟨.lost now, none, topic.load now err⟩
  | .cancel => ⟨.canceled, none, fun _ ↦ .error "context canceled"⟩

/-- Calls of `Next` served by the stream, one per event: the connection after them and what each
call returned. -/
def serve (topic : Topic) (c : Connection) (es : List Event) :
    Connection × List (Except NextError Delta) :=
  run c (es.map fun e c ↦ e.pass topic c.cursor)

/-- The last call served. -/
theorem serve_append_singleton (topic : Topic) (c : Connection) (es : List Event) (e : Event) :
    serve topic c (es ++ [e]) =
      ((next (serve topic c es).1 (e.pass topic (serve topic c es).1.cursor)).1,
        (serve topic c es).2 ++
          [(next (serve topic c es).1 (e.pass topic (serve topic c es).1.cursor)).2]) := by
  rw [serve, List.map_append, List.map_singleton, run_append_singleton]
  rfl

/-! ## Freshness -/

/-- Every value of `last` is the restricted value at position `t`, at or after the cursor. -/
def Current (topic : Topic) (t : Nat) (c : Connection) : Prop :=
  c.cursor ≤ t ∧ ∀ k v, c.last.lookup k = some v → topic.data t k = some v

/-- `last` holds exactly the values of `data` for the keys the builder lists. -/
def Fresh (data : Restricted) (c : Connection) : Prop :=
  ∀ k, c.last.lookup k = if k ∈ c.builder.keys then data k else none

section Freshness

variable {topic : Topic} {c c' : Connection} {t now : Nat} {e : Event}

theorem Fresh.current (hf : Fresh (topic.data now) c) (hc : c.cursor ≤ now) :
    Current topic now c := by
  refine ⟨hc, fun k v hv ↦ ?_⟩
  rw [hf k] at hv
  split_ifs at hv
  exact hv

theorem Current.of_next_error {p : Pass} {err : NextError} (hc : Current topic t c)
    (h : next c p = (c', .error err)) : Current topic t c' := by
  obtain ⟨hlast, hcursor, -⟩ := next_error h
  exact ⟨hcursor ▸ hc.1, hlast ▸ hc.2⟩

/-- A successful load of a call at position `now` reads the data at `now`. -/
theorem load_eq_data {cursor : Nat} {keys : List Key} {new : Restricted}
    (h : (e.pass topic cursor).load keys = .ok new) (he : e.time = some now) :
    new = topic.data now := by
  cases e with
  | wake now' update err =>
    cases he
    cases err <;> simp only [Event.pass, Topic.load, reduceCtorEq, Except.ok.injEq] at h
    exact h.symm
  | lost now' err =>
    cases he
    cases err <;> simp only [Event.pass, Topic.load, reduceCtorEq, Except.ok.injEq] at h
    exact h.symm
  | cancel => cases he

/-- A successful call served at position `now`, from a current connection, leaves `last` fresh
at `now`. -/
theorem fresh_of_next_ok {delta : Delta} (hc : Current topic t c) (ht : t ≤ now)
    (he : e.time = some now) (h : next c (e.pass topic c.cursor) = (c', .ok delta)) :
    Fresh (topic.data now) c' ∧ c'.cursor ≤ now := by
  obtain ⟨-, base, cand, new, hl, -, hlk, hcase⟩ := next_ok h
  obtain rfl := load_eq_data hl he
  rcases hcase with ⟨hcur, rfl, rfl, hb⟩ | ⟨dirty, -, hw, rfl, rfl, -⟩
  · refine ⟨fun k ↦ by rw [hlk k, hb]; split_ifs <;> rfl, ?_⟩
    rcases hcur with hfirst | ⟨-, hw⟩
    · exact hfirst.2 ▸ hc.1.trans ht
    · cases e <;> simp only [Event.pass, reduceCtorEq, Wakeup.lost.injEq] at hw
      cases he
      exact hw.symm.le
  · cases e <;> simp only [Event.pass, reduceCtorEq, Wakeup.notify.injEq] at hw
    obtain ⟨rfl, rfl⟩ := hw
    cases he
    refine ⟨fun k ↦ ?_, le_rfl⟩
    rw [hlk k]
    by_cases hcand : k ∈ candidates c'.builder.keys (topic.dirty c.cursor c'.cursor) c.last
    · rw [if_pos hcand, if_pos (mem_candidates.mp hcand).1]
    rw [if_neg hcand]
    split_ifs with hkeys
    · have hk : k ∉ topic.dirty c.cursor c'.cursor ∧ k ∈ c.last := by
        simpa [mem_candidates, hkeys, not_or] using hcand
      obtain ⟨v, hv⟩ := Option.isSome_iff_exists.mp (AList.lookup_isSome.mpr hk.2)
      have hunchanged : topic.data c'.cursor k = topic.data t k :=
        by_contra fun hne ↦ hk.1 (Topic.mem_dirty_of_ne hc.1 ht hne)
      rw [hv, hunchanged, hc.2 k v hv]
    · rfl

/-- A cancelled call fails. -/
theorem next_cancel_error {delta : Delta} :
    next c (Event.cancel.pass topic c.cursor) ≠ (c', .ok delta) := fun h ↦ by
  obtain ⟨-, -, _, _, hl, -⟩ := next_ok h
  cases hl

/-- One event keeps the invariant, at the event's position after a success. -/
theorem Current.next {es : List Event} (hc : Current topic t c)
    (hs : List.Sorted (· ≤ ·) (t :: (e :: es).filterMap Event.time ++ [now])) :
    ∃ t₁, Current topic t₁ (Autoupdate.next c (e.pass topic c.cursor)).1 ∧
      List.Sorted (· ≤ ·) (t₁ :: es.filterMap Event.time ++ [now]) := by
  rcases hr : Autoupdate.next c (e.pass topic c.cursor) with ⟨c₁, err | delta⟩
  · refine ⟨t, hc.of_next_error hr, ?_⟩
    cases he : e.time with
    | none => simpa [he] using hs
    | some m =>
      simp only [List.filterMap_cons, he, List.cons_append, List.sorted_cons,
        List.mem_cons] at hs ⊢
      exact ⟨fun b hb ↦ hs.1 b (.inr hb), hs.2.2⟩
  · cases he : e.time with
    | none =>
      cases e <;> simp only [Event.time, reduceCtorEq] at he
      exact absurd hr next_cancel_error
    | some m =>
      simp only [List.filterMap_cons, he, List.cons_append, List.sorted_cons,
        List.mem_cons] at hs
      obtain ⟨hf, hcur⟩ := fresh_of_next_ok hc (hs.1 m (.inl rfl)) he hr
      exact ⟨m, hf.current hcur, by simpa only [List.cons_append, List.sorted_cons] using hs.2⟩

/-- The invariant over a run: while the stream positions of the events grow, a position between
the cursor and the next event's keeps `last` current. -/
theorem current_serve : ∀ (es : List Event) {c : Connection} {t : Nat}, Current topic t c →
    List.Sorted (· ≤ ·) (t :: es.filterMap Event.time ++ [now]) →
      ∃ t', Current topic t' (serve topic c es).1 ∧ t' ≤ now
  | [], _, t, hc, hs => ⟨t, hc, List.rel_of_sorted_cons hs now (by simp)⟩
  | e :: es, c, _, hc, hs => by
    obtain ⟨t₁, hc₁, hs₁⟩ := hc.next hs
    exact current_serve es hc₁ hs₁

end Freshness

/-- **Delivered values are current.** On a stream that announces every change of the restricted
data, take a new connection and events whose stream positions never decrease from its cursor on.
After any run of `Next` on them, a further call at position `now` that succeeds leaves in `last`
exactly the restricted values at `now` of the keys the builder lists. -/
theorem serve_fresh (topic : Topic) (b : Builder) (cursor : Nat) (es : List Event) (e : Event)
    (now : Nat) (he : e.time = some now)
    (hs : List.Sorted (· ≤ ·) (cursor :: es.filterMap Event.time ++ [now])) {c' : Connection}
    {delta : Delta}
    (h : next (serve topic (connect b cursor) es).1
      (e.pass topic (serve topic (connect b cursor) es).1.cursor) = (c', .ok delta)) :
    Fresh (topic.data now) c' := by
  have hc : Current topic cursor (connect b cursor) :=
    ⟨le_rfl, fun k v hv ↦ by simp [connect] at hv⟩
  obtain ⟨t, hct, hle⟩ := current_serve es hc hs
  exact (fresh_of_next_ok hct hle he h).1

/-- An event that does not lose the cursor wakes no call with a lost cursor. -/
theorem Event.pass_wakeup_ne_lost {topic : Topic} {e : Event} (he : ∀ now err, e ≠ .lost now err)
    (cursor cursor' : Nat) : (e.pass topic cursor).wakeup ≠ .lost cursor' := by
  cases e with
  | wake => simp [Event.pass]
  | lost now err => exact absurd rfl (he now err)
  | cancel => simp [Event.pass]

/-- **Clients hold the current data.** On a stream that announces every change of the restricted
data, take a new connection and events whose stream positions never decrease from its cursor on
and that never lose the cursor, and a run of `Next` on them in which no `Update` fails. If a last
call succeeds at position `now`, a client that applied every delta holds exactly the restricted
values at `now` of the keys the builder lists. -/
theorem serve_client_current (topic : Topic) (b : Builder) (cursor : Nat) (es : List Event)
    (e : Event) (now : Nat) (he : e.time = some now)
    (hs : List.Sorted (· ≤ ·) (cursor :: es.filterMap Event.time ++ [now]))
    (hl : ∀ e' ∈ es ++ [e], ∀ now' err, e' ≠ .lost now' err)
    (hu : ∀ err, .error (.update err) ∉ (serve topic (connect b cursor) es).2) {delta : Delta}
    (h : (serve topic (connect b cursor) (es ++ [e])).2.getLast? = some (.ok delta)) :
    View.applyAll (fun _ ↦ none) (serve topic (connect b cursor) (es ++ [e])).2 =
      fun k ↦ if k ∈ (serve topic (connect b cursor) (es ++ [e])).1.builder.keys
        then topic.data now k else none := by
  have hlast := serve_append_singleton topic (connect b cursor) es e
  rw [hlast, List.getLast?_append, List.getLast?_singleton] at h
  have hok := Option.some_inj.mp h
  have hu' : ∀ err, .error (.update err) ∉ (serve topic (connect b cursor) (es ++ [e])).2 :=
    fun err hm ↦ by
      rw [hlast, List.mem_append, List.mem_singleton, hok] at hm
      exact hm.elim (hu err) nofun
  have hsync := synced_run (show Synced (fun _ ↦ none) (connect b cursor) from
    ⟨fun _ ↦ rfl, funext fun _ ↦ rfl⟩)
    ((es ++ [e]).map fun (e : Event) (c : Connection) ↦ e.pass topic c.cursor)
    (fun p hp c cursor' ↦ by
      obtain ⟨e', he', rfl⟩ := List.mem_map.mp hp
      exact Event.pass_wakeup_ne_lost (hl e' he') _ _) hu'
  have hc : Current topic cursor (connect b cursor) :=
    ⟨le_rfl, fun k v hv ↦ by simp [connect] at hv⟩
  obtain ⟨t, hct, hle⟩ := current_serve es hc hs
  have hfresh := (fresh_of_next_ok hct hle he (Prod.ext rfl hok)).1
  have hview : View.applyAll (fun _ ↦ none) (serve topic (connect b cursor) (es ++ [e])).2 =
      fun k ↦ (serve topic (connect b cursor) (es ++ [e])).1.last.lookup k := hsync.2
  rw [hview, congrArg Prod.fst hlast]
  exact funext fun k ↦ hfresh k

/-- A stream whose every batch announces `user/1/name`, which grows by one letter a batch. -/
def nameTopic : Topic where
  data t k := if k = "user/1/name" then some (String.mk (List.replicate t 'x')) else none
  batch _ := ["user/1/name"]
  announces t k h := by
    by_cases hk : k = "user/1/name"
    · simp [hk]
    · simp [hk] at h

/-- A builder that lists `user/1/name`. -/
def nameBuilder : Builder := { bodies := [], keys := ["user/1/name"] }

theorem serve_fresh_name :
    ∃ c' delta, next (serve nameTopic (connect nameBuilder 0) [.wake 1 none none]).1
        ((Event.wake 2 none none).pass nameTopic
          (serve nameTopic (connect nameBuilder 0) [.wake 1 none none]).1.cursor) =
        (c', .ok delta) ∧
      List.Sorted (· ≤ ·) (0 :: [Event.wake 1 none none].filterMap Event.time ++ [2]) ∧
      Fresh (nameTopic.data 2) c' := by
  obtain ⟨c', delta, h⟩ : ∃ c' delta,
      next (serve nameTopic (connect nameBuilder 0) [.wake 1 none none]).1
        ((Event.wake 2 none none).pass nameTopic
          (serve nameTopic (connect nameBuilder 0) [.wake 1 none none]).1.cursor) =
        (c', .ok delta) := ⟨_, _, rfl⟩
  have hs : List.Sorted (· ≤ ·) (0 :: [Event.wake 1 none none].filterMap Event.time ++ [2]) := by
    decide
  exact ⟨c', delta, h, hs, serve_fresh nameTopic nameBuilder 0 [.wake 1 none none]
    (.wake 2 none none) 2 rfl hs h⟩

end Autoupdate
