import OpenSlidesAutoupdate.Autoupdate.Topic
import OpenSlidesAutoupdate.Keysbuilder.Frame
import OpenSlidesAutoupdate.Keysbuilder.Refinement

/-!
# What a client sees

The three parts of the service together: the keysbuilder resolves the request to keys, the
connection delivers the changes of their restricted values, and the stream tells the connection
which values changed. Over a run in which the cursor is never lost and no `Update` fails, when the
last call of `Next` re-resolves the request over the data it reads, a client that applied every
delta holds the current restricted value of every key the request observes, and nothing else.

`Update` reads the relation values as JSON: `Topic.values` decodes the restricted bytes with the
decoder the service uses, `null` being absent. On coherent data the keys of a successful `Update`
are exactly the observed ones (`mem_keys_iff_observes`); the connection's last call runs that
`Update` on the builder of the request, whose bodies no call changes (`bodies_run`), and the
client holds the current values of the builder's keys (`serve_client_current`).

## Skipping `Update`

Step 4 of `Next` reruns `Update` only when a relation field the builder observes was announced.
Skipping it is sound: `Update` reads the data only at the keys it requests
(`Keysbuilder.updateAll_answering_congr`), the stream announces every change, so if no key that
the builder's last `Update` requested was announced, a new `Update` would return the builder as it
is, and the call that skips it is the call that reruns it (`next_skip_update`).
-/

namespace Autoupdate

open Keysbuilder (Key Builder)

/-- The values `Update` reads at position `now`: the restricted values decoded by `decode`,
`none` for `null`. -/
def Topic.values (topic : Topic) (decode : Bytes → Option Keysbuilder.Value) (now : Nat) :
    Keysbuilder.Data :=
  fun k ↦ (topic.data now k).bind decode

/-- A wake-up at `now` whose step 4 runs `Update` over the values at `now`, in the iteration
orders `s`. -/
def Event.resolve (topic : Topic) (decode : Bytes → Option Keysbuilder.Value) (now : Nat)
    (s : Keysbuilder.Schedule) : Event :=
  .wake now (some (Keysbuilder.answering (topic.values decode now), s)) none

/-- **Clients see the current values of the keys their request observes.** On a stream that
announces every change of the restricted data, take a new connection for the request `b` and
events whose stream positions never decrease from its cursor on and that never lose the cursor,
served by a run of `Next` in which a call succeeded and no `Update` failed. If a last call at
position `now` re-resolves the request over the values at `now`, on which the request is coherent,
and succeeds, then a client that applied every delta holds the restricted value at `now` of every
key the request observes, and nothing for any other key. -/
theorem serve_client_observes (topic : Topic) (decode : Bytes → Option Keysbuilder.Value)
    (b : Builder) (cursor : Nat) (es : List Event) (now : Nat) (s : Keysbuilder.Schedule)
    (hc : Keysbuilder.Coherent (topic.values decode now) b.bodies)
    (hs : List.Sorted (· ≤ ·) (cursor :: es.filterMap Event.time ++ [now]))
    (hl : ∀ e ∈ es, ∀ now' err, e ≠ .lost now' err)
    (hu : ∀ err, .error (.update err) ∉ (serve topic (connect b cursor) es).2)
    {delta₀ delta : Delta}
    (h₀ : .ok delta₀ ∈ (serve topic (connect b cursor) es).2)
    (h : (serve topic (connect b cursor) (es ++ [Event.resolve topic decode now s])).2.getLast? =
      some (.ok delta)) (k : Key) :
    (Keysbuilder.Observes b.bodies (topic.values decode now) k →
      View.applyAll (fun _ ↦ none)
        (serve topic (connect b cursor) (es ++ [Event.resolve topic decode now s])).2 k =
        topic.data now k) ∧
    (¬Keysbuilder.Observes b.bodies (topic.values decode now) k →
      View.applyAll (fun _ ↦ none)
        (serve topic (connect b cursor) (es ++ [Event.resolve topic decode now s])).2 k =
        none) := by
  set e := Event.resolve topic decode now s
  set c := (serve topic (connect b cursor) es).1
  have hl' : ∀ e' ∈ es ++ [e], ∀ now' err, e' ≠ .lost now' err :=
    List.forall_mem_append.mpr ⟨hl, by simp [e, Event.resolve]⟩
  have hview := congrFun (serve_client_current topic b cursor es e now rfl hs hl' hu h) k
  have hlast := serve_append_singleton topic (connect b cursor) es e
  rw [hlast, List.getLast?_append, List.getLast?_singleton] at h
  have hnext :
      next c (e.pass topic c.cursor) = ((next c (e.pass topic c.cursor)).1, .ok delta) :=
    Prod.ext rfl (Option.some_inj.mp h)
  have hfirst : c.firstCall = false := firstCall_run_of_ok h₀ hu
  obtain ⟨-, -, -, -, -, -, -, ⟨⟨hf, -⟩ | ⟨-, hw⟩, -⟩ | ⟨-, -, -, -, -, hb⟩⟩ := next_ok hnext
  · simp [hfirst] at hf
  · cases hw
  have hupdate := (Keysbuilder.update_maxDepth_succ c.builder).trans (congrArg some hb)
  have hbodies : c.builder.bodies = b.bodies := bodies_run _ _
  have hkeys := Keysbuilder.mem_keys_iff_observes (k := k) (hbodies ▸ hc) hupdate
  rw [hbodies] at hkeys
  rw [hview, hlast]
  exact ⟨fun hk ↦ if_pos (hkeys.mpr hk), fun hk ↦ if_neg (mt hkeys.mp hk)⟩

/-- A stream over the keys of `Keysbuilder.parentRequest`: `motion/1/parent_id` points at
`motion/2` for good, and every batch renames `motion/2`. -/
def parentTopic : Topic where
  data t k := if k = "motion/1/parent_id" then some "motion/2"
    else if k = "motion/2/title" then some (String.mk (List.replicate t 'x')) else none
  batch _ := ["motion/2/title"]
  announces t k h := by
    by_cases hk : k = "motion/2/title"
    · simp [hk]
    · by_cases hp : k = "motion/1/parent_id" <;> simp [hp, hk] at h

/-- A decoder that reads the bytes as a string. -/
def stringDecode : Bytes → Option Keysbuilder.Value := fun v ↦ some (.string v)

/-- The request for `motion/1/parent_id` and the title of the motion it points at. -/
def parentTitleRequest : List Keysbuilder.Body :=
  [⟨[("motion/1", [("parent_id", some (.relation "motion" [("title", none)]))])]⟩]

/-- The builder `newBuilder` makes of `parentTitleRequest` at position `0`. -/
def parentTitleBuilder : Builder :=
  (({ bodies := parentTitleRequest, keys := [] } : Builder).updateAll
    (Keysbuilder.answering (parentTopic.values stringDecode 0)) .inOrder).1

theorem serve_client_observes_parent :
    (∀ err, .error (.update err) ∉
      (serve parentTopic (connect parentTitleBuilder 0) [Event.wake 1 none none]).2) ∧
    ∃ delta₀ delta,
      .ok delta₀ ∈ (serve parentTopic (connect parentTitleBuilder 0) [Event.wake 1 none none]).2 ∧
      (serve parentTopic (connect parentTitleBuilder 0) ([Event.wake 1 none none] ++
        [Event.resolve parentTopic stringDecode 2 .inOrder])).2.getLast? = some (.ok delta) ∧
      Keysbuilder.Observes parentTitleBuilder.bodies (parentTopic.values stringDecode 2)
        "motion/2/title" ∧
      View.applyAll (fun _ ↦ none) (serve parentTopic (connect parentTitleBuilder 0)
        ([Event.wake 1 none none] ++ [Event.resolve parentTopic stringDecode 2 .inOrder])).2
        "motion/2/title" = parentTopic.data 2 "motion/2/title" := by
  have hu : ∀ err, .error (.update err) ∉
      (serve parentTopic (connect parentTitleBuilder 0) [Event.wake 1 none none]).2 :=
    update_error_not_mem_run fun p hp _ ↦ by
      obtain ⟨e, he, rfl⟩ := List.mem_map.mp hp
      rw [List.mem_singleton.mp he]
      rfl
  obtain ⟨delta₀, h₀⟩ : ∃ delta₀,
      .ok delta₀ ∈ (serve parentTopic (connect parentTitleBuilder 0) [Event.wake 1 none none]).2 :=
    ⟨_, List.mem_singleton.mpr rfl⟩
  obtain ⟨delta, h⟩ : ∃ delta, (serve parentTopic (connect parentTitleBuilder 0)
      ([Event.wake 1 none none] ++
        [Event.resolve parentTopic stringDecode 2 .inOrder])).2.getLast? = some (.ok delta) :=
    ⟨_, rfl⟩
  have hbodies : parentTitleBuilder.bodies = parentTitleRequest := Keysbuilder.bodies_updateAll _
  have hc : Keysbuilder.Coherent (parentTopic.values stringDecode 2) parentTitleBuilder.bodies :=
    hbodies ▸ Keysbuilder.coherent_of_levels (n := 1) (by decide) rfl
  have hobs : Keysbuilder.Observes parentTitleBuilder.bodies (parentTopic.values stringDecode 2)
      "motion/2/title" :=
    hbodies ▸ ⟨_, List.mem_singleton.mpr rfl, .child (List.mem_singleton.mpr rfl) (.here _ _)⟩
  have hl : ∀ e ∈ [Event.wake 1 none none], ∀ now' err, e ≠ .lost now' err := by simp
  exact ⟨hu, delta₀, delta, h₀, h, hobs, (serve_client_observes parentTopic stringDecode
    parentTitleBuilder 0 [Event.wake 1 none none] 2 .inOrder hc (by decide) hl hu h₀ h
    "motion/2/title").1 hobs⟩

/-! ## Skipping `Update` -/

/-- **Skipping `Update` is safe.** Let the builder of a connection be what a successful `Update`
made of it over the restricted values at position `t`, at or after the connection's cursor, in
the iteration orders `s`. If no key announced between the cursor and `now` is one that `Update`
requested from the data provider, a call of `Next` woken at `now` that skips `Update` returns the
same result and leaves the connection in the same state as one that reruns `Update` over the
values at `now` in the same orders. -/
theorem next_skip_update (topic : Topic) (decode : Bytes → Option Keysbuilder.Value)
    (c : Connection) (b₀ : Builder) (s : Keysbuilder.Schedule) (t now : Nat) (err : Option String)
    (hb : b₀.updateAll (Keysbuilder.answering (topic.values decode t)) s = (c.builder, none))
    (hc : c.cursor ≤ t) (ht : t ≤ now)
    (hd : ∀ r, ∀ k ∈ Keysbuilder.needed (Keysbuilder.answering (topic.values decode t)) s
      c.builder.bodies r, k ∉ topic.dirty c.cursor now) :
    next c ((Event.wake now (some (Keysbuilder.answering (topic.values decode now), s)) err).pass
        topic c.cursor) =
      next c ((Event.wake now none err).pass topic c.cursor) := by
  have hagree : ∀ r, ∀ k ∈ Keysbuilder.needed (Keysbuilder.answering (topic.values decode t)) s
      c.builder.bodies r, topic.values decode now k = topic.values decode t k := fun r k hk ↦ by
    have hdata : topic.data now k = topic.data t k :=
      by_contra fun hne ↦ hd r k hk (Topic.mem_dirty_of_ne hc ht hne)
    simp only [Topic.values, hdata]
  refine next_congr_pass rfl ?_ rfl
  show c.builder.updateAll _ s = (c.builder, none)
  rw [Keysbuilder.updateAll_answering_congr c.builder s hagree]
  exact Keysbuilder.updateAll_idem hb

/-- A connection at position `1` whose builder was resolved over the values at `1`. -/
def parentConnection : Connection :=
  { builder := (({ bodies := Keysbuilder.parentRequest, keys := [] } : Builder).updateAll
      (Keysbuilder.answering (parentTopic.values stringDecode 1)) .inOrder).1,
    cursor := 1, last := ∅, firstCall := false }

theorem next_skip_update_parent :
    (∀ r, ∀ k ∈ Keysbuilder.needed (Keysbuilder.answering (parentTopic.values stringDecode 1))
      .inOrder parentConnection.builder.bodies r, k ∉ parentTopic.dirty parentConnection.cursor 2) ∧
    next parentConnection ((Event.wake 2 (some (Keysbuilder.answering
        (parentTopic.values stringDecode 2), .inOrder)) none).pass parentTopic
          parentConnection.cursor) =
      next parentConnection ((Event.wake 2 none none).pass parentTopic parentConnection.cursor) := by
  have hb : ({ bodies := Keysbuilder.parentRequest, keys := [] } : Builder).updateAll
      (Keysbuilder.answering (parentTopic.values stringDecode 1)) .inOrder =
      (parentConnection.builder, none) := Prod.ext rfl rfl
  refine (fun hd ↦ ⟨hd, next_skip_update parentTopic stringDecode parentConnection _ .inOrder 1 2
    none hb le_rfl (by decide) hd⟩) ?_
  intro r
  rcases Nat.lt_or_ge r (Keysbuilder.maxDepth Keysbuilder.parentRequest) with hlt | hge
  · obtain rfl : r = 0 := Nat.lt_one_iff.mp hlt
    decide
  · rw [show parentConnection.builder.bodies = Keysbuilder.parentRequest from rfl,
      Keysbuilder.needed_eq_nil_of_maxDepth_le hge]
    simp

end Autoupdate
