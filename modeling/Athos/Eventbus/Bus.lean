import Athos.Kube.Meta
import Mathlib.Data.List.InsertIdx
import Mathlib.Data.List.Nodup

/-!
# The event bus

`src/internal/eventbus/eventbus.go`. A subscription is removed by the index that its handler had in
the slice of the topic when it was made. The abstract bus keeps the subscriptions themselves; a run
keeps the two together as long as every index still denotes the subscription it was made for.

Every method holds the lock of the bus while it touches the slices, so a run is a sequence of
calls. A map without a topic, and the nil map, give an empty slice.
-/

namespace Athos.Eventbus

open Base Kube List

/-- `Topic`. -/
abbrev Topic := GoString

/-- `Event`; `eventbus.go:48-54`. No time is the zero time. -/
structure Event where
  topic : Topic
  cluster : GoString := []
  namespace_ : GoString := []
  time : Option Time := none
  payload : StringMap := ∅
  deriving DecidableEq

/-- `Handler`, identified by an `H`; `none` is the nil function. -/
abbrev Handler (H : Type) := Option H

/-- `Bus`; `eventbus.go:60-63`. -/
structure Bus (H : Type) where
  handlers : Topic → List (Handler H)

/-- The variables of the function that `Subscribe` returns. -/
structure Unsubscribe where
  topic : Topic
  idx : Nat
  deriving DecidableEq

/-- The handlers invoked by `Publish` with the event they get, and whether it ended in a call
of the nil function. -/
structure Delivery (H : Type) where
  invoked : List (H × Event)
  panicked : Bool
  deriving DecidableEq

variable {H : Type}

namespace Bus

/-- `New`, and the zero value. -/
def new : Bus H := ⟨fun _ => []⟩

/-- `Subscribe`; `eventbus.go:70-94`. -/
def subscribe (b : Bus H) (topic : Topic) (handler : Handler H) : Bus H × Unsubscribe :=
  let hs := b.handlers topic ++ [handler]
  (⟨Function.update b.handlers topic hs⟩, ⟨topic, hs.length - 1⟩)

/-- A call of the function returned by `Subscribe`; `eventbus.go:78-93`. -/
def unsubscribe (b : Bus H) (u : Unsubscribe) : Bus H :=
  let hs := b.handlers u.topic
  if hs.length ≤ u.idx then b
  else ⟨Function.update b.handlers u.topic ((hs.set u.idx none).filter (·.isSome))⟩

end Bus

/-- The loop of `Publish`. -/
def deliver (e : Event) : List (Handler H) → Delivery H
  | [] => ⟨[], false⟩
  | none :: _ => ⟨[], true⟩
  | some h :: hs => ⟨(h, e) :: (deliver e hs).invoked, (deliver e hs).panicked⟩

/-- The event as it is delivered. -/
def Event.stamped (e : Event) (now : Time) : Event := { e with time := some (e.time.getD now) }

namespace Bus

/-- `Publish`; `eventbus.go:98-108`. -/
def publish (b : Bus H) (now : Time) (e : Event) : Delivery H :=
  deliver (e.stamped now) (b.handlers e.topic)

/-- `SubscriberCount`; `eventbus.go:112-116`. -/
def subscriberCount (b : Bus H) (topic : Topic) : Nat := (b.handlers topic).length

/-- `Reset`; `eventbus.go:119-123`. -/
def reset (_ : Bus H) : Bus H := new

end Bus

/-- One call. Functions returned by `Subscribe` are numbered as they are made. -/
inductive Action (H : Type) where
  | subscribe (topic : Topic) (handler : Handler H)
  | unsubscribe (k : Nat)
  | publish (now : Time) (e : Event)
  | reset
  deriving DecidableEq

/-- A bus with the functions it returned. -/
structure Session (H : Type) where
  bus : Bus H
  returned : List Unsubscribe

namespace Session

/-- The session of a new bus. -/
def initial : Session H := ⟨.new, []⟩

/-- What a call does to the bus. -/
def step (s : Session H) : Action H → Session H
  | .subscribe topic handler =>
    ⟨(s.bus.subscribe topic handler).1, s.returned ++ [(s.bus.subscribe topic handler).2]⟩
  | .unsubscribe k =>
    match s.returned[k]? with
    | none => s
    | some u => ⟨s.bus.unsubscribe u, s.returned⟩
  | .publish .. => s
  | .reset => ⟨s.bus.reset, s.returned⟩

/-- The session after some calls on a new bus. -/
def after (actions : List (Action H)) : Session H := actions.foldl step initial

private theorem after_append_singleton (actions : List (Action H)) (a : Action H) :
    after (actions ++ [a]) = (after actions).step a := by
  simp only [after, foldl_append, foldl_cons, foldl_nil]

end Session

/-- A call of `Subscribe`, by its number. -/
structure Subscription (H : Type) where
  id : Nat
  topic : Topic
  handler : Handler H
  deriving DecidableEq

/-- What a bus is for: the subscriptions that are neither removed nor reset, in order, and the
number of subscriptions made so far. -/
structure Ledger (H : Type) where
  live : List (Subscription H)
  made : Nat
  deriving DecidableEq

namespace Ledger

/-- No subscription has been made. -/
def initial : Ledger H := ⟨[], 0⟩

/-- What a call means for the subscriptions. -/
def step (l : Ledger H) : Action H → Ledger H
  | .subscribe topic handler => ⟨l.live ++ [⟨l.made, topic, handler⟩], l.made + 1⟩
  | .unsubscribe k => ⟨l.live.filter (·.id ≠ k), l.made⟩
  | .publish .. => l
  | .reset => ⟨[], l.made⟩

/-- The subscriptions after some calls. -/
def after (actions : List (Action H)) : Ledger H := actions.foldl step initial

/-- The subscriptions to a topic. -/
def on (l : Ledger H) (topic : Topic) : List (Subscription H) :=
  l.live.filter (·.topic = topic)

end Ledger

/-- Publishing invokes exactly the handlers of the subscriptions to the topic, each once and in
order, and the counts are theirs. -/
structure Serves (b : Bus H) (l : Ledger H) : Prop where
  publish : ∀ now e, (b.publish now e).panicked = false ∧
    (b.publish now e).invoked.map (fun p => (some p.1, p.2)) =
      (l.on e.topic).map fun sub => (sub.handler, e.stamped now)
  count : ∀ topic, b.subscriberCount topic = (l.on topic).length

/-- The call subscribes a handler that is not nil, or removes by an index at which the slice
holds the handler of that subscription, or that is past its end if the subscription is gone. -/
def Denotes (s : Session H) (l : Ledger H) : Action H → Prop
  | .subscribe _ handler => handler.isSome = true
  | .unsubscribe k =>
    match s.returned[k]? with
    | none => True
    | some u =>
      ((l.on u.topic)[u.idx]?.map (·.id)) = some k ∨
        (∀ sub ∈ l.live, sub.id ≠ k) ∧ (l.on u.topic).length ≤ u.idx
  | .publish .. | .reset => True

/-- Every call of the run denotes, in the state in which it is made. -/
def Careful (s : Session H) (l : Ledger H) : List (Action H) → Prop
  | [] => True
  | a :: actions => Denotes s l a ∧ Careful (s.step a) (l.step a) actions

private theorem filter_set_none {hs : List (Handler H)} (h : ∀ x ∈ hs, x.isSome = true) (i : Nat) :
    (hs.set i none).filter (·.isSome) = hs.eraseIdx i := by
  induction hs generalizing i with
  | nil => rfl
  | cons x hs ih =>
    obtain ⟨hx, hhs⟩ := forall_mem_cons.1 h
    cases i with
    | zero =>
      rw [set_cons_zero, eraseIdx_cons_zero, filter_cons_of_neg (by simp)]
      exact filter_eq_self.2 hhs
    | succ i =>
      rw [set_cons_succ, eraseIdx_cons_succ, filter_cons_of_pos hx, ih hhs]

private theorem filter_ne_eq_eraseIdx {α : Type} {f : α → Nat} {xs : List α} {i k : Nat}
    (hn : (xs.map f).Nodup) (h : xs[i]?.map f = some k) :
    xs.filter (f · ≠ k) = xs.eraseIdx i := by
  induction xs generalizing i with
  | nil => simp at h
  | cons x xs ih =>
    obtain ⟨hx, hxs⟩ := nodup_cons.1 hn
    cases i with
    | zero =>
      obtain rfl : f x = k := by simpa using h
      rw [eraseIdx_cons_zero, filter_cons_of_neg (by simp)]
      apply filter_eq_self.2
      intro y hy
      have hne : f y ≠ f x := fun he => hx (he ▸ mem_map_of_mem hy)
      simpa using hne
    | succ i =>
      have hi : xs[i]?.map f = some k := by simpa using h
      have hne : f x ≠ k := by
        rintro rfl
        obtain ⟨y, hy, he⟩ := Option.map_eq_some_iff.1 hi
        exact hx (he ▸ mem_map_of_mem (mem_of_getElem? hy))
      rw [eraseIdx_cons_succ, filter_cons_of_pos (by simpa using hne), ih hxs hi]

/-- The slices hold the handlers of the subscriptions. -/
structure Agrees (s : Session H) (l : Ledger H) : Prop where
  handlers : ∀ topic, s.bus.handlers topic = (l.on topic).map (·.handler)
  present : ∀ sub ∈ l.live, sub.handler.isSome = true
  ids : (l.live.map (·.id)).Nodup
  bound : ∀ sub ∈ l.live, sub.id < l.made
  numbered : s.returned.length = l.made

section Steps

variable {s : Session H} {l : Ledger H} {a : Action H}

private theorem agrees_initial : Agrees (.initial : Session H) .initial where
  handlers _ := rfl
  present := forall_mem_nil _
  ids := nodup_nil
  bound := forall_mem_nil _
  numbered := rfl

private theorem Agrees.subscribe (h : Agrees s l) (topic : Topic) {handler : Handler H}
    (hh : handler.isSome = true) :
    Agrees (s.step (.subscribe topic handler)) (l.step (.subscribe topic handler)) where
  handlers t := by
    simp only [Session.step, Bus.subscribe, Ledger.step, Ledger.on, filter_append]
    by_cases ht : t = topic
    · subst ht
      rw [Function.update_self, h.handlers]
      simp [Ledger.on]
    · have hne : ¬ topic = t := fun he => ht he.symm
      rw [Function.update_of_ne ht, h.handlers]
      simp [Ledger.on, hne]
  present := by
    intro sub hsub
    rcases mem_append.1 hsub with hsub | hsub
    · exact h.present sub hsub
    · rw [mem_singleton.1 hsub]
      exact hh
  ids := by
    simp only [Ledger.step, map_append, map_cons, map_nil]
    apply List.Nodup.append h.ids (nodup_singleton _)
    intro k hk hk'
    obtain ⟨sub, hsub, rfl⟩ := mem_map.1 hk
    have hlt := h.bound sub hsub
    have heq := mem_singleton.1 hk'
    omega
  bound := by
    intro sub hsub
    rcases mem_append.1 hsub with hsub | hsub
    · exact Nat.lt_succ_of_lt (h.bound sub hsub)
    · rw [mem_singleton.1 hsub]
      exact Nat.lt_succ_self _
  numbered := by
    simp only [Session.step, Ledger.step, length_append, length_singleton, h.numbered]

variable {k : Nat}

/-- Removing a subscription from the ledger keeps what does not depend on the bus. -/
theorem Agrees.filtered {s' : Session H} (h : Agrees s l) (hr : s'.returned = s.returned)
    (hh : ∀ topic, s'.bus.handlers topic =
      ((l.step (.unsubscribe k)).on topic).map (·.handler)) :
    Agrees s' (l.step (.unsubscribe k)) where
  handlers := hh
  present sub hsub := h.present sub (mem_of_mem_filter hsub)
  ids := h.ids.sublist (filter_sublist.map _)
  bound sub hsub := h.bound sub (mem_of_mem_filter hsub)
  numbered := by
    rw [hr]
    exact h.numbered

private theorem on_unsubscribe (l : Ledger H) (k : Nat) (topic : Topic) :
    (l.step (.unsubscribe k)).on topic = (l.on topic).filter (·.id ≠ k) := by
  simp only [Ledger.step, Ledger.on]
  exact filter_comm ..

private theorem on_unsubscribe_of_forall {topic : Topic} (hk : ∀ sub ∈ l.on topic, sub.id ≠ k) :
    (l.step (.unsubscribe k)).on topic = l.on topic := by
  rw [on_unsubscribe]
  apply filter_eq_self.2
  intro sub hsub
  simpa using hk sub hsub

private theorem Agrees.handlers_unsubscribe_own (h : Agrees s l) {u : Unsubscribe}
    (hidx : (l.on u.topic)[u.idx]?.map (·.id) = some k) :
    ((s.bus.handlers u.topic).set u.idx none).filter (·.isSome) =
      ((l.step (.unsubscribe k)).on u.topic).map (·.handler) := by
  have hsome : ∀ x ∈ s.bus.handlers u.topic, x.isSome = true := by
    rw [h.handlers]
    intro x hx
    obtain ⟨sub, hsub, rfl⟩ := mem_map.1 hx
    exact h.present sub (mem_of_mem_filter hsub)
  have hnodup : ((l.on u.topic).map (·.id)).Nodup := h.ids.sublist (filter_sublist.map _)
  rw [filter_set_none hsome, on_unsubscribe, filter_ne_eq_eraseIdx hnodup hidx, h.handlers,
    eraseIdx_map]

private theorem Agrees.id_ne_of_other (h : Agrees s l) {t topic : Topic} {i : Nat}
    (hidx : (l.on t)[i]?.map (·.id) = some k) (ht : topic ≠ t) :
    ∀ sub ∈ l.on topic, sub.id ≠ k := by
  intro sub hsub he
  obtain ⟨own, hown, hownid⟩ := Option.map_eq_some_iff.1 hidx
  have hmem := mem_of_getElem? hown
  obtain rfl : own = sub := inj_on_of_nodup_map h.ids
    (mem_of_mem_filter hmem) (mem_of_mem_filter hsub) (hownid.trans he.symm)
  have h₁ : own.topic = t := by simpa using of_mem_filter hmem
  have h₂ : own.topic = topic := by simpa using of_mem_filter hsub
  exact ht (h₂.symm.trans h₁)

private theorem Agrees.unsubscribe (h : Agrees s l) (hd : Denotes s l (.unsubscribe k)) :
    Agrees (s.step (.unsubscribe k)) (l.step (.unsubscribe k)) := by
  -- A subscription that is gone leaves every topic as it is.
  have hgone (hk : ∀ sub ∈ l.live, sub.id ≠ k) (topic : Topic) :
      s.bus.handlers topic = ((l.step (.unsubscribe k)).on topic).map (·.handler) := by
    rw [on_unsubscribe_of_forall fun sub hsub => hk sub (mem_of_mem_filter hsub)]
    exact h.handlers topic
  cases hu : s.returned[k]? with
  | none =>
    have hs : s.step (.unsubscribe k) = s := by simp only [Session.step, hu]
    rw [hs]
    apply h.filtered rfl
    apply hgone
    intro sub hsub he
    have hlt := h.bound sub hsub
    have hle := List.getElem?_eq_none_iff.1 hu
    rw [h.numbered] at hle
    omega
  | some u =>
    have hs : s.step (.unsubscribe k) = ⟨s.bus.unsubscribe u, s.returned⟩ := by
      simp only [Session.step, hu]
    simp only [Denotes, hu] at hd
    rw [hs]
    refine Agrees.filtered h ?_ ?_
    · rfl
    intro topic
    rcases hd with hidx | ⟨hk, hlen⟩
    · have hlt : ¬ (s.bus.handlers u.topic).length ≤ u.idx := by
        obtain ⟨sub, hsub, -⟩ := Option.map_eq_some_iff.1 hidx
        rw [h.handlers, length_map, Nat.not_le]
        exact (List.getElem?_eq_some_iff.1 hsub).1
      simp only [Bus.unsubscribe, if_neg hlt]
      by_cases ht : topic = u.topic
      · subst ht
        rw [Function.update_self]
        exact h.handlers_unsubscribe_own hidx
      · rw [Function.update_of_ne ht, h.handlers,
          on_unsubscribe_of_forall (h.id_ne_of_other hidx ht)]
    · have hle : (s.bus.handlers u.topic).length ≤ u.idx := by
        rwa [h.handlers, length_map]
      simp only [Bus.unsubscribe, if_pos hle]
      exact hgone hk topic

/-- One call that denotes keeps the bus and the subscriptions together. -/
theorem Agrees.step (h : Agrees s l) (hd : Denotes s l a) : Agrees (s.step a) (l.step a) := by
  cases a with
  | subscribe topic handler => exact h.subscribe topic hd
  | unsubscribe k => exact h.unsubscribe hd
  | publish now e => exact h
  | reset =>
    exact ⟨fun _ => rfl, forall_mem_nil _, nodup_nil, forall_mem_nil _,
      h.numbered⟩

private theorem deliver_eq {e : Event} {hs : List (Handler H)} (h : ∀ x ∈ hs, x.isSome = true) :
    (deliver e hs).panicked = false ∧
      (deliver e hs).invoked.map (fun p => (some p.1, p.2)) = hs.map (·, e) := by
  induction hs with
  | nil => exact ⟨rfl, rfl⟩
  | cons x hs ih =>
    obtain ⟨hx, hhs⟩ := forall_mem_cons.1 h
    obtain ⟨hp, hi⟩ := ih hhs
    obtain ⟨x, rfl⟩ := Option.isSome_iff_exists.1 hx
    refine ⟨hp, ?_⟩
    simp only [deliver, map_cons, hi]

private theorem Agrees.serves (h : Agrees s l) : Serves s.bus l where
  publish now e := by
    have hsome : ∀ x ∈ s.bus.handlers e.topic, x.isSome = true := by
      rw [h.handlers]
      intro x hx
      obtain ⟨sub, hsub, rfl⟩ := mem_map.1 hx
      exact h.present sub (mem_of_mem_filter hsub)
    obtain ⟨hp, hi⟩ := deliver_eq (e := e.stamped now) hsome
    refine ⟨hp, hi.trans ?_⟩
    rw [h.handlers, map_map]
    rfl
  count topic := by
    rw [Bus.subscriberCount, h.handlers, length_map]

end Steps

section Runs

variable {s : Session H} {l : Ledger H} {before rest actions : List (Action H)}

private theorem Agrees.foldl (h : Agrees s l) (hc : Careful s l (before ++ rest)) :
    Agrees (before.foldl Session.step s) (before.foldl Ledger.step l) ∧
      Careful (before.foldl Session.step s) (before.foldl Ledger.step l) rest := by
  induction before generalizing s l with
  | nil => exact ⟨h, hc⟩
  | cons a before ih => exact ih (h.step hc.1) hc.2

/-- The subscription of that number was made and is not live. -/
def Retired (k : Nat) (l : Ledger H) : Prop := k < l.made ∧ ∀ sub ∈ l.live, sub.id ≠ k

variable {k : Nat}

private theorem Retired.step (h : Retired k l) (a : Action H) : Retired k (l.step a) := by
  obtain ⟨hlt, hne⟩ := h
  cases a with
  | subscribe topic handler =>
    refine ⟨Nat.lt_succ_of_lt hlt, ?_⟩
    intro sub hsub
    rcases mem_append.1 hsub with hsub | hsub
    · exact hne sub hsub
    · rw [mem_singleton.1 hsub]
      exact Nat.ne_of_gt hlt
  | unsubscribe j => exact ⟨hlt, fun sub hsub => hne sub (mem_of_mem_filter hsub)⟩
  | publish now e => exact ⟨hlt, hne⟩
  | reset => exact ⟨hlt, forall_mem_nil _⟩

private theorem Retired.foldl (h : Retired k l) (actions : List (Action H)) :
    Retired k (actions.foldl Ledger.step l) := by
  induction actions generalizing l with
  | nil => exact h
  | cons a actions ih => exact ih (h.step a)

/-- Once called, a returned function has retired its subscription for good. -/
theorem retired_of_unsubscribe (hk : k < l.made) (actions : List (Action H)) :
    Retired k (actions.foldl Ledger.step (l.step (.unsubscribe k))) := by
  apply Retired.foldl
  refine ⟨hk, ?_⟩
  intro sub hsub
  simpa using of_mem_filter hsub

private theorem step_of_retired (h : Agrees s l) (hk : Retired k l)
    (hd : Denotes s l (.unsubscribe k)) : s.step (.unsubscribe k) = s := by
  simp only [Denotes] at hd
  simp only [Session.step]
  split
  · rfl
  · rename_i u hu
    simp only [hu] at hd
    rcases hd with hidx | ⟨-, hlen⟩
    · obtain ⟨sub, hsub, hid⟩ := Option.map_eq_some_iff.1 hidx
      exact absurd hid (hk.2 sub (mem_of_mem_filter (mem_of_getElem? hsub)))
    · have hle : (s.bus.handlers u.topic).length ≤ u.idx := by
        rwa [h.handlers, length_map]
      simp only [Bus.unsubscribe, if_pos hle]

end Runs

/-- In every run on a new bus whose calls all denote, `Publish` invokes exactly the handlers
that are subscribed, each once and in order, `SubscriberCount` is their number, and a second
call of a returned function changes nothing. -/
theorem bus_serves (actions : List (Action H))
    (h : Careful (.initial : Session H) .initial actions) :
    (∀ before rest, actions = before ++ rest →
      Serves (Session.after before).bus (Ledger.after before)) ∧
    ∀ before between rest k, actions = before ++ .unsubscribe k :: between ++
        .unsubscribe k :: rest → k < (Session.after before).returned.length →
      Session.after (before ++ .unsubscribe k :: between ++ [.unsubscribe k]) =
        Session.after (before ++ .unsubscribe k :: between) := by
  constructor
  · rintro before rest rfl
    exact (agrees_initial.foldl h).1.serves
  · rintro before between rest k rfl hk
    obtain ⟨hagrees, hcareful⟩ := agrees_initial.foldl h
    rw [append_assoc] at h
    have hmade := (agrees_initial.foldl h).1.numbered
    have hretired := retired_of_unsubscribe (hmade ▸ hk) between
    rw [← foldl_cons (f := Ledger.step), ← foldl_append] at hretired
    rw [Session.after_append_singleton]
    exact step_of_retired hagrees hretired hcareful.1

instance (s : Session H) (l : Ledger H) (a : Action H) :
    Decidable (Denotes s l a) :=
  match a with
  | .subscribe _ handler => inferInstanceAs (Decidable (handler.isSome = true))
  | .unsubscribe k =>
    match h : s.returned[k]? with
    | none => .isTrue (by simp only [Denotes, h])
    | some u =>
      decidable_of_iff (((l.on u.topic)[u.idx]?.map (·.id)) = some k ∨
        (∀ sub ∈ l.live, sub.id ≠ k) ∧ (l.on u.topic).length ≤ u.idx)
        (by simp only [Denotes, h])
  | .publish .. | .reset => .isTrue trivial

instance decidableCareful : (s : Session H) → (l : Ledger H) →
    (actions : List (Action H)) → Decidable (Careful s l actions)
  | _, _, [] => .isTrue trivial
  | s, l, a :: actions =>
    have := decidableCareful (s.step a) (l.step a) actions
    inferInstanceAs (Decidable (Denotes s l a ∧ Careful (s.step a) (l.step a) actions))

/-- Two subscriptions to a topic. -/
def samplePair : List (Action Nat) :=
  [.subscribe (lit "cluster.ready") (some 0), .subscribe (lit "cluster.ready") (some 1)]

/-- Removing the later subscription first, and twice, is careful. -/
theorem bus_serves_samplePair :
    Serves (Session.after (samplePair ++ [.unsubscribe 1, .unsubscribe 1, .unsubscribe 0])).bus
      (Ledger.after (samplePair ++ [.unsubscribe 1, .unsubscribe 1, .unsubscribe 0])) :=
  (bus_serves (samplePair ++ [.unsubscribe 1, .unsubscribe 1, .unsubscribe 0]) (by decide)).1 _ []
    (append_nil _).symm

/-- Removing the earlier one first leaves the later one in place for good; removing the
earlier one twice removes both. -/
theorem bus_serves_not_samplePair :
    ¬ Serves (Session.after (samplePair ++ [.unsubscribe 0, .unsubscribe 1])).bus
      (Ledger.after (samplePair ++ [.unsubscribe 0, .unsubscribe 1])) ∧
    ¬ Serves (Session.after (samplePair ++ [.unsubscribe 0, .unsubscribe 0])).bus
      (Ledger.after (samplePair ++ [.unsubscribe 0, .unsubscribe 0])) := by
  constructor
  · intro h
    exact absurd (h.count (lit "cluster.ready")) (by decide)
  · intro h
    exact absurd (h.count (lit "cluster.ready")) (by decide)

end Athos.Eventbus
