import Mtrtk.Run

/-!
# The bus and its subscriptions

`core/bus.py` : `Bus.publish` offers an item to every subscription that matches its topic. A
subscription has a queue that is bounded or not. An offer to a full one drops the oldest item and
counts it, and the close of one puts a sentinel behind what is queued.

A `Subscription` keeps its history too : what was published to it before it was closed, what the
consumer got, and what left the queue, in order. `inv_of_run` is what holds of it in every run.

A close makes room in a full queue as an offer does, but does not count what it drops. So the count
is right in exactly the runs in which no full queue is closed (`accounted_iff`) ; everything else
holds in all of them.
-/

namespace Mtrtk

/-- `Policy`. -/
inductive BusPolicy
  | dropOldest | unbounded
  deriving DecidableEq, Repr

/-- What is published on the bus. -/
abbrev BusMessage (α : Type*) := String × α

/-- `Subscription`, and whether the bus has it in its list. The sentinel is `none`. `published`,
`received` and `gone` are not in the source : the matching items until it was closed, what `get`
returned, and the items that left the queue, each with whether the consumer got it. -/
structure Subscription (α : Type*) where
  patterns : List String
  policy : BusPolicy
  maxsize : ℕ
  highWater : ℕ
  attached : Bool := true
  queue : List (Option (BusMessage α)) := []
  dropped : ℕ := 0
  highWaterHits : ℕ := 0
  closed : Bool := false
  published : List (BusMessage α) := []
  received : List (Option (BusMessage α)) := []
  gone : List (BusMessage α × Bool) := []

variable {α : Type*}

namespace Subscription

/-- `matches`. -/
def matchesTopic (s : Subscription α) (topic : String) : Bool :=
  "*" ∈ s.patterns ||
    s.patterns.any fun p =>
      if p.toList.getLast? = some '*' then
        ['.', '*'].isSuffixOf p.toList && p.toList.dropLast.isPrefixOf topic.toList
      else p = topic

/-- `queue.full()` : a queue of size 0 has no bound. -/
def full (s : Subscription α) : Bool := 0 < s.maxsize && s.maxsize ≤ s.queue.length

/-- `queue.put_nowait`, where there is room. -/
def put (s : Subscription α) (m : Option (BusMessage α)) : Subscription α :=
  { s with queue := s.queue ++ [m] }

/-- The first of the queue leaves it. -/
def take (s : Subscription α) (received : Bool) : Subscription α :=
  match s.queue with
  | [] => s
  | none :: queue => { s with queue := queue }
  | some m :: queue => { s with queue := queue, gone := s.gone ++ [(m, received)] }

/-- `_evict_one`. -/
def evictOne (s : Subscription α) : Subscription α := s.take false

/-- `offer`. -/
def offer (s : Subscription α) (m : BusMessage α) : Subscription α :=
  if s.closed then s
  else
    let s := { s with published := s.published ++ [m] }
    match s.policy with
    | .unbounded =>
      let s := s.put (some m)
      if s.highWater ≤ s.queue.length then { s with highWaterHits := s.highWaterHits + 1 } else s
    | .dropOldest =>
      if s.full then { s.evictOne with dropped := s.dropped + 1 }.put (some m) else s.put (some m)

/-- `close`. -/
def close (s : Subscription α) : Subscription α :=
  if s.closed then s
  else
    let s := { s with closed := true }
    if s.full then s.evictOne.put none else s.put none

/-- `get`, `none` where it waits. -/
def get (s : Subscription α) : Option (Subscription α) :=
  s.queue.head?.map fun m => { s.take true with received := s.received ++ [m] }

end Subscription

/-- `Bus`, with the subscriptions that have left it too. -/
structure Bus (α : Type*) where
  subs : List (Subscription α) := []

inductive BusEvent (α : Type*)
  | subscribe (patterns : List String) (maxsize : ℕ) (policy : BusPolicy) (highWater : ℕ)
  | publish (topic : String) (item : α)
  | get (i : ℕ)
  /-- `close` of a subscription that stays in the list. -/
  | close (i : ℕ)
  | unsubscribe (i : ℕ)

namespace Bus

/-- The subscription that `subscribe` makes. -/
def newSubscription (patterns : List String) (maxsize : ℕ) (policy : BusPolicy)
    (highWater : ℕ) : Subscription α where
  patterns := patterns
  policy := policy
  maxsize := if policy = .unbounded then 0 else maxsize
  highWater := highWater

/-- `publish`. -/
def publish (b : Bus α) (topic : String) (item : α) : Bus α :=
  ⟨b.subs.map fun s => if s.attached && s.matchesTopic topic then s.offer (topic, item) else s⟩

/-- One call. -/
def step (b : Bus α) : BusEvent α → Option (Bus α)
  | .subscribe patterns maxsize policy highWater =>
    some ⟨b.subs ++ [newSubscription patterns maxsize policy highWater]⟩
  | .publish topic item => some (b.publish topic item)
  | .get i => do
    let s ← b.subs[i]?
    let s' ← s.get
    return ⟨b.subs.set i s'⟩
  | .close i => do
    let s ← b.subs[i]?
    return ⟨b.subs.set i s.close⟩
  | .unsubscribe i => do
    let s ← b.subs[i]?
    return ⟨b.subs.set i { s.close with attached := false }⟩

end Bus

namespace Subscription

/-! ## The history of a subscription -/

/-- The items in the queue. -/
def queued (s : Subscription α) : List (BusMessage α) := s.queue.filterMap id

/-- The items that were dropped. -/
def evicted (s : Subscription α) : List (BusMessage α) :=
  (s.gone.filter fun g => !g.2).map Prod.fst

/-- The items that the consumer got. -/
def consumed (s : Subscription α) : List (BusMessage α) := (s.gone.filter (·.2)).map Prod.fst

/-- What holds of a subscription whatever is done with it. -/
structure Inv (s : Subscription α) : Prop where
  fifo : s.published = s.gone.map Prod.fst ++ s.queued
  got : s.received.filterMap id = s.consumed
  room : s.policy = .unbounded → s.maxsize = 0
  kept : s.policy = .unbounded → s.evicted = []
  /-- Before the close there is no sentinel. -/
  opened : s.closed = false → none ∉ s.queue ∧ none ∉ s.received
  /-- After it the sentinel is last, in the queue, or got, with nothing behind it. -/
  ending : s.closed = true → none ∉ s.received ∧ s.queue = s.queued.map some ++ [none] ∨
    s.queue = [] ∧ ∃ items : List (BusMessage α), s.received = items.map some ++ [none]

section

variable {s s' : Subscription α} {m : BusMessage α}

/-- A full queue that is open has an item to drop. -/
theorem Inv.exists_oldest (h : s.Inv) (hopen : s.closed = false) (hfull : s.full = true) :
    ∃ m queue, s.queue = some m :: queue := by
  obtain ⟨hnone, -⟩ := h.opened hopen
  simp only [full, Bool.and_eq_true, decide_eq_true_eq] at hfull
  rcases hqueue : s.queue with _ | ⟨_ | m, queue⟩
  · simp only [hqueue, List.length_nil] at hfull
    omega
  · exact absurd (by simp [hqueue]) hnone
  · exact ⟨m, queue, rfl⟩

/-- What an offer does. -/
theorem Inv.offer_cases (h : s.Inv) (m : BusMessage α) :
    s.closed = true ∧ s.offer m = s ∨
      s.closed = false ∧ (
        (∃ hits, s.offer m = { s with
          published := s.published ++ [m], queue := s.queue ++ [some m], highWaterHits := hits }) ∨
        s.policy = .dropOldest ∧ ∃ first queue, s.queue = some first :: queue ∧
          s.offer m = { s with
            published := s.published ++ [m], queue := queue ++ [some m]
            gone := s.gone ++ [(first, false)], dropped := s.dropped + 1 }) := by
  have hroom := h.exists_oldest
  obtain ⟨patterns, policy, maxsize, highWater, attached, queue, dropped, hits, closed, published,
    received, gone⟩ := s
  cases closed with
  | true => exact .inl ⟨rfl, rfl⟩
  | false =>
    refine .inr ⟨rfl, ?_⟩
    cases policy with
    | unbounded =>
      by_cases hhigh : highWater ≤ (queue ++ [some m]).length
      · exact .inl ⟨hits + 1, if_pos hhigh⟩
      · exact .inl ⟨hits, if_neg hhigh⟩
    | dropOldest =>
      by_cases hfull : (0 < maxsize && maxsize ≤ queue.length) = true
      · obtain ⟨first, rest, hqueue⟩ := hroom rfl hfull
        obtain rfl : queue = some first :: rest := hqueue
        exact .inr ⟨rfl, first, rest, rfl, if_pos hfull⟩
      · exact .inl ⟨hits, if_neg hfull⟩

/-- What a close does. -/
theorem Inv.close_cases (h : s.Inv) :
    s.closed = true ∧ s.close = s ∨
      s.closed = false ∧ (
        s.full = false ∧ s.close = { s with closed := true, queue := s.queue ++ [none] } ∨
        s.full = true ∧ ∃ first queue, s.queue = some first :: queue ∧
          s.close = { s with
            closed := true, queue := queue ++ [none]
            gone := s.gone ++ [(first, false)] }) := by
  have hroom := h.exists_oldest
  obtain ⟨patterns, policy, maxsize, highWater, attached, queue, dropped, hits, closed, published,
    received, gone⟩ := s
  cases closed with
  | true => exact .inl ⟨rfl, rfl⟩
  | false =>
    refine .inr ⟨rfl, ?_⟩
    by_cases hfull : (0 < maxsize && maxsize ≤ queue.length) = true
    · obtain ⟨first, rest, hqueue⟩ := hroom rfl hfull
      obtain rfl : queue = some first :: rest := hqueue
      exact .inr ⟨hfull, first, rest, rfl, if_pos hfull⟩
    · exact .inl ⟨Bool.eq_false_iff.2 hfull, if_neg hfull⟩

/-- What a `get` that does not wait does. -/
theorem get_cases (hs : s.get = some s') :
    (∃ m queue, s.queue = some m :: queue ∧
      s' = { s with
        queue := queue, gone := s.gone ++ [(m, true)], received := s.received ++ [some m] }) ∨
      ∃ queue, s.queue = none :: queue ∧
        s' = { s with queue := queue, received := s.received ++ [none] } := by
  obtain ⟨m, hm, rfl⟩ := Option.map_eq_some_iff.1 hs
  obtain ⟨queue, hqueue⟩ := List.head?_eq_some_iff.1 hm
  cases m with
  | some m => exact .inl ⟨m, queue, hqueue, by simp [take, hqueue]⟩
  | none => exact .inr ⟨queue, hqueue, by simp [take, hqueue]⟩

/-! ## What every call keeps -/

theorem Inv.offer (h : s.Inv) (m : BusMessage α) : (s.offer m).Inv := by
  rcases h.offer_cases m with ⟨-, heq⟩ | ⟨hopen, ⟨hits, heq⟩ | ⟨hpolicy, first, queue, hqueue, heq⟩⟩
  · rw [heq]
    exact h
  · obtain ⟨hnone, hgot⟩ := h.opened hopen
    rw [heq]
    exact {
      fifo := by simp [queued, h.fifo]
      got := h.got
      room := h.room
      kept := h.kept
      opened := fun _ => ⟨by simpa using hnone, hgot⟩
      ending := fun hclosed => absurd (hopen.symm.trans hclosed) Bool.false_ne_true }
  · obtain ⟨hnone, hgot⟩ := h.opened hopen
    have hfifo := h.fifo
    rw [queued, hqueue] at hfifo
    rw [hqueue] at hnone
    rw [heq]
    exact {
      fifo := by simp [queued, hfifo]
      got := by simpa [consumed] using h.got
      room := h.room
      kept := fun hunbounded => by simp [hpolicy] at hunbounded
      opened := fun _ => ⟨by simpa using hnone, hgot⟩
      ending := fun hclosed => absurd (hopen.symm.trans hclosed) Bool.false_ne_true }

/-- A queue without the sentinel is its items. -/
theorem map_queued {queue : List (Option (BusMessage α))} (h : none ∉ queue) :
    (queue.filterMap id).map some = queue := by
  induction queue with
  | nil => rfl
  | cons m queue ih =>
    obtain ⟨hm, hqueue⟩ := not_or.1 (List.mem_cons.not.1 h)
    obtain ⟨m, rfl⟩ := Option.ne_none_iff_exists'.1 (Ne.symm hm)
    exact congrArg (some m :: ·) (ih hqueue)

theorem Inv.close (h : s.Inv) : s.close.Inv := by
  rcases h.close_cases with ⟨-, heq⟩ | ⟨hopen, ⟨-, heq⟩ | ⟨hfull, first, queue, hqueue, heq⟩⟩
  · rw [heq]
    exact h
  · obtain ⟨hnone, hgot⟩ := h.opened hopen
    rw [heq]
    exact {
      fifo := by simpa [queued] using h.fifo
      got := h.got
      room := h.room
      kept := h.kept
      opened := fun hfalse => by simp at hfalse
      ending := fun _ => .inl ⟨hgot, by simpa [queued] using (map_queued hnone).symm⟩ }
  · obtain ⟨hnone, hgot⟩ := h.opened hopen
    have hfifo := h.fifo
    rw [queued, hqueue] at hfifo
    rw [hqueue] at hnone
    have hrest : none ∉ queue := fun hmem => hnone (List.mem_cons_of_mem _ hmem)
    have hmax : s.policy ≠ .unbounded := fun hunbounded => by
      simp [full, h.room hunbounded] at hfull
    rw [heq]
    exact {
      fifo := by simpa [queued] using hfifo
      got := by simpa [consumed] using h.got
      room := h.room
      kept := fun hunbounded => absurd hunbounded hmax
      opened := fun hfalse => by simp at hfalse
      ending := fun _ => .inl ⟨hgot, by simpa [queued] using (map_queued hrest).symm⟩ }

theorem Inv.get (h : s.Inv) (hs : s.get = some s') : s'.Inv := by
  have hfifo := h.fifo
  rcases get_cases hs with ⟨m, queue, hqueue, rfl⟩ | ⟨queue, hqueue, rfl⟩
  · rw [queued, hqueue] at hfifo
    exact {
      fifo := by simpa [queued] using hfifo
      got := by simpa [consumed] using h.got
      room := h.room
      kept := fun hunbounded => by simpa [evicted] using h.kept hunbounded
      opened := fun hopen => by
        obtain ⟨hnone, hgot⟩ := h.opened hopen
        rw [hqueue] at hnone
        exact ⟨fun hmem => hnone (List.mem_cons_of_mem _ hmem), by simpa using hgot⟩
      ending := fun hclosed => by
        rcases h.ending hclosed with ⟨hgot, hlast⟩ | ⟨hnil, -⟩
        · rw [queued, hqueue] at hlast
          exact .inl ⟨by simpa using hgot, by simpa [queued] using hlast⟩
        · rw [hqueue] at hnil
          exact absurd hnil (by simp) }
  · have hclosed : s.closed = true := by
      by_contra hopen
      exact (h.opened (Bool.eq_false_iff.2 hopen)).1 (by simp [hqueue])
    obtain ⟨hgot, hlast⟩ : none ∉ s.received ∧ s.queue = s.queued.map some ++ [none] :=
      (h.ending hclosed).resolve_right fun hnil => by simp [hqueue] at hnil
    have hitems : s.queued = [] := by
      rw [hqueue] at hlast
      rcases hq : s.queued with _ | ⟨m, items⟩
      · rfl
      · rw [hq] at hlast
        simp at hlast
    obtain rfl : queue = [] := by
      rw [hitems, hqueue] at hlast
      simpa using hlast
    exact {
      fifo := by simpa [queued, hqueue] using hfifo
      got := by simpa [consumed] using h.got
      room := h.room
      kept := h.kept
      opened := fun hopen => absurd (hopen.symm.trans hclosed) Bool.false_ne_true
      ending := fun _ => .inr ⟨rfl, s.received.filterMap id, by simp only [map_queued hgot]⟩ }

theorem Inv.attached (h : s.Inv) (attached : Bool) : ({ s with attached := attached }).Inv :=
  ⟨h.fifo, h.got, h.room, h.kept, h.opened, h.ending⟩

theorem inv_newSubscription (patterns : List String) (maxsize : ℕ) (policy : BusPolicy)
    (highWater : ℕ) :
    (Bus.newSubscription patterns maxsize policy highWater : Subscription α).Inv where
  fifo := rfl
  got := rfl
  room hunbounded := if_pos hunbounded
  kept _ := rfl
  opened _ := ⟨List.not_mem_nil, List.not_mem_nil⟩
  ending hclosed := absurd hclosed Bool.false_ne_true

/-! ## What is dropped, and what is counted -/

theorem Inv.offer_count (h : s.Inv) (m : BusMessage α) :
    (s.offer m).closed = s.closed ∧
      (s.offer m).evicted.length + s.dropped = s.evicted.length + (s.offer m).dropped := by
  rcases h.offer_cases m with ⟨-, heq⟩ | ⟨-, ⟨hits, heq⟩ | ⟨-, first, queue, -, heq⟩⟩
  · rw [heq]
    exact ⟨rfl, rfl⟩
  · rw [heq]
    exact ⟨rfl, rfl⟩
  · rw [heq]
    refine ⟨rfl, ?_⟩
    simp only [evicted, List.filter_append, List.map_append, List.length_append]
    simp only [List.filter_cons, Bool.not_false, if_true, List.filter_nil, List.map_cons,
      List.map_nil, List.length_cons, List.length_nil]
    omega

theorem get_count (hs : s.get = some s') :
    s'.closed = s.closed ∧ s'.evicted = s.evicted ∧ s'.dropped = s.dropped := by
  rcases get_cases hs with ⟨m, queue, -, rfl⟩ | ⟨queue, -, rfl⟩
  · exact ⟨rfl, by simp [evicted], rfl⟩
  · exact ⟨rfl, rfl, rfl⟩

/-- Whether a close of it drops an item. -/
def losesOnClose (s : Subscription α) : Bool := !s.closed && s.full

theorem Inv.close_count (h : s.Inv) :
    s.close.closed = true ∧ s.close.dropped = s.dropped ∧
      s.close.evicted.length = s.evicted.length + s.losesOnClose.toNat := by
  rcases h.close_cases with ⟨hclosed, heq⟩ | ⟨hopen, ⟨hfull, heq⟩ | ⟨hfull, first, queue, -, heq⟩⟩
  · rw [heq]
    exact ⟨hclosed, rfl, by simp [losesOnClose, hclosed]⟩
  · rw [heq]
    exact ⟨rfl, rfl, by simp [losesOnClose, hopen, hfull, evicted]⟩
  · rw [heq]
    exact ⟨rfl, rfl, by simp [losesOnClose, hopen, hfull, evicted]⟩

end

end Subscription

/-! ## Runs of the bus -/

/-- It closes subscription `i`. -/
def BusEvent.closes (i : ℕ) : BusEvent α → Bool
  | .close j | .unsubscribe j => j = i
  | _ => false

namespace Bus

open Subscription

variable {b b' : Bus α} {e : BusEvent α} {i j : ℕ} {s s' : Subscription α} {is : List (BusEvent α)}

theorem sub_set {t : Subscription α} (hsub : (b.subs.set j t)[i]? = some s') :
    j = i ∧ s' = t ∨ j ≠ i ∧ b.subs[i]? = some s' := by
  rw [List.getElem?_set] at hsub
  split at hsub
  next heq =>
    obtain ⟨-, hsub⟩ := Option.ite_none_right_eq_some.1 hsub
    exact .inl ⟨heq, (Option.some.inj hsub).symm⟩
  next hne => exact .inr ⟨hne, hsub⟩

/-- What a call does to each subscription that is there after it. -/
theorem step_sub (hs : b.step e = some b') (hsub : b'.subs[i]? = some s') :
    (b.subs.length ≤ i ∧ ∃ patterns maxsize policy highWater,
        s' = newSubscription patterns maxsize policy highWater) ∨
      ∃ s, b.subs[i]? = some s ∧
        (e.closes i = false ∧ (s' = s ∨ (∃ m, s' = s.offer m) ∨ s.get = some s') ∨
          e.closes i = true ∧ ∃ attached, s' = { s.close with attached := attached }) := by
  cases e with
  | subscribe patterns maxsize policy highWater =>
    obtain rfl := Option.some.inj hs
    rcases Nat.lt_or_ge i b.subs.length with hlt | hge
    · rw [List.getElem?_append_left hlt] at hsub
      exact .inr ⟨s', hsub, .inl ⟨rfl, .inl rfl⟩⟩
    · rw [List.getElem?_append_right hge] at hsub
      have hnew := List.mem_of_getElem? hsub
      exact .inl ⟨hge, patterns, maxsize, policy, highWater, List.mem_singleton.1 hnew⟩
  | publish topic item =>
    obtain rfl := Option.some.inj hs
    rw [publish, List.getElem?_map] at hsub
    obtain ⟨s, hget, rfl⟩ := Option.map_eq_some_iff.1 hsub
    refine .inr ⟨s, hget, .inl ⟨rfl, ?_⟩⟩
    split
    · exact .inr (.inl ⟨_, rfl⟩)
    · exact .inl rfl
  | get j =>
    obtain ⟨s, hget, hs⟩ := Option.bind_eq_some_iff.1 hs
    obtain ⟨t, ht, hs⟩ := Option.bind_eq_some_iff.1 hs
    obtain rfl := Option.some.inj hs
    rcases sub_set hsub with ⟨rfl, rfl⟩ | ⟨-, hsame⟩
    · exact .inr ⟨s, hget, .inl ⟨rfl, .inr (.inr ht)⟩⟩
    · exact .inr ⟨s', hsame, .inl ⟨rfl, .inl rfl⟩⟩
  | close j =>
    obtain ⟨s, hget, hs⟩ := Option.bind_eq_some_iff.1 hs
    obtain rfl := Option.some.inj hs
    rcases sub_set hsub with ⟨rfl, rfl⟩ | ⟨hne, hsame⟩
    · exact .inr ⟨s, hget, .inr ⟨decide_eq_true rfl, s.close.attached, rfl⟩⟩
    · exact .inr ⟨s', hsame, .inl ⟨decide_eq_false hne, .inl rfl⟩⟩
  | unsubscribe j =>
    obtain ⟨s, hget, hs⟩ := Option.bind_eq_some_iff.1 hs
    obtain rfl := Option.some.inj hs
    rcases sub_set hsub with ⟨rfl, rfl⟩ | ⟨hne, hsame⟩
    · exact .inr ⟨s, hget, .inr ⟨decide_eq_true rfl, false, rfl⟩⟩
    · exact .inr ⟨s', hsame, .inl ⟨decide_eq_false hne, .inl rfl⟩⟩

/-- No subscription is forgotten. -/
theorem step_length (hs : b.step e = some b') : b.subs.length ≤ b'.subs.length := by
  cases e with
  | subscribe patterns maxsize policy highWater =>
    obtain rfl := Option.some.inj hs
    simp
  | publish topic item =>
    obtain rfl := Option.some.inj hs
    simp [publish]
  | get j =>
    obtain ⟨s, -, hs⟩ := Option.bind_eq_some_iff.1 hs
    obtain ⟨t, -, hs⟩ := Option.bind_eq_some_iff.1 hs
    obtain rfl := Option.some.inj hs
    simp
  | close j | unsubscribe j =>
    obtain ⟨s, -, hs⟩ := Option.bind_eq_some_iff.1 hs
    obtain rfl := Option.some.inj hs
    simp

/-- Somewhere in the run, subscription `i` is closed for the first time, and its queue is full. -/
def ClosesFull (is : List (BusEvent α)) (i : ℕ) : Prop :=
  ∃ pre e post b s, is = pre ++ e :: post ∧ run step {} pre = some b ∧ e.closes i = true ∧
    b.subs[i]? = some s ∧ s.losesOnClose = true

theorem closesFull_nil (i : ℕ) : ¬ClosesFull ([] : List (BusEvent α)) i := by
  rintro ⟨pre, e, post, b, s, h, -⟩
  simp at h

theorem closesFull_snoc (hrun : run step {} is = some b) :
    ClosesFull (is ++ [e]) i ↔
      ClosesFull is i ∨ e.closes i = true ∧ ∃ s, b.subs[i]? = some s ∧ s.losesOnClose = true := by
  constructor
  · rintro ⟨pre, e', post, b', s, heq, hpre, hrest⟩
    rcases List.eq_nil_or_concat post with rfl | ⟨post, y, rfl⟩
    · obtain ⟨rfl, htail⟩ := List.append_inj' heq rfl
      obtain rfl := (List.cons.inj htail).1
      obtain rfl := Option.some.inj (hrun.symm.trans hpre)
      exact .inr ⟨hrest.1, s, hrest.2⟩
    · have heq : is ++ [e] = (pre ++ e' :: post) ++ [y] := by simpa using heq
      exact .inl ⟨pre, e', post, b', s, (List.append_inj' heq rfl).1, hpre, hrest⟩
  · rintro (⟨pre, e', post, b', s, rfl, hrest⟩ | ⟨hcloses, s, hs⟩)
    · exact ⟨pre, e', post ++ [e], b', s, by simp, hrest⟩
    · exact ⟨is, e, [], b, s, rfl, hrun, hcloses, hs⟩

/-- Every subscription of a run has the invariant, and more dropped than counted by what its close
dropped. -/
theorem inv_of_run (hrun : run step {} is = some b) :
    (∀ i, b.subs.length ≤ i → ¬ClosesFull is i) ∧
      ∀ i s, b.subs[i]? = some s → s.Inv ∧
        (¬ClosesFull is i ∧ s.evicted.length = s.dropped ∨
          ClosesFull is i ∧ s.closed = true ∧ s.evicted.length = s.dropped + 1) := by
  induction is using List.reverseRecOn generalizing b with
  | nil =>
    obtain rfl : ({} : Bus α) = b := by simpa [run] using hrun
    exact ⟨fun i _ => closesFull_nil i, fun i s hs => by simp at hs⟩
  | append_singleton is e ih =>
    rw [run_append] at hrun
    obtain ⟨b₀, hrun₀, hlast⟩ := Option.bind_eq_some_iff.1 hrun
    have hs : b₀.step e = some b := by simpa [run] using hlast
    obtain ⟨hfew, hall⟩ := ih hrun₀
    refine ⟨fun i hi hclosed => ?_, fun i s' hsub => ?_⟩
    · have hlen := step_length hs
      rcases (closesFull_snoc hrun₀).1 hclosed with hclosed | ⟨-, s, hget, -⟩
      · exact hfew i (by omega) hclosed
      · rw [List.getElem?_eq_none (by omega)] at hget
        exact absurd hget (by simp)
    rw [closesFull_snoc hrun₀]
    rcases step_sub hs hsub with
      ⟨hnew, patterns, maxsize, policy, highWater, rfl⟩ | ⟨s, hget, hdone⟩
    · refine ⟨inv_newSubscription patterns maxsize policy highWater, .inl ⟨?_, rfl⟩⟩
      rintro (hclosed | ⟨-, s, hget, -⟩)
      · exact hfew i hnew hclosed
      · rw [List.getElem?_eq_none hnew] at hget
        exact absurd hget (by simp)
    obtain ⟨hinv, hcount⟩ := hall i s hget
    rcases hdone with ⟨hcloses, hdone⟩ | ⟨hcloses, attached, rfl⟩
    · obtain ⟨hinv', hclosed, hevicted⟩ : s'.Inv ∧ s'.closed = s.closed ∧
          s'.evicted.length + s.dropped = s.evicted.length + s'.dropped := by
        rcases hdone with rfl | ⟨m, rfl⟩ | hget
        · exact ⟨hinv, rfl, rfl⟩
        · exact ⟨hinv.offer m, hinv.offer_count m⟩
        · obtain ⟨hclosed, hevicted, hdropped⟩ := get_count hget
          exact ⟨hinv.get hget, hclosed, by rw [hevicted, hdropped]⟩
      refine ⟨hinv', ?_⟩
      simp only [hcloses, Bool.false_eq_true, false_and, or_false, hclosed]
      rcases hcount with ⟨hnot, heq⟩ | ⟨hfull, hdone, heq⟩
      · exact .inl ⟨hnot, by omega⟩
      · exact .inr ⟨hfull, hdone, by omega⟩
    · obtain ⟨hclosed, hdropped, hevicted⟩ := hinv.close_count
      refine ⟨hinv.close.attached attached, ?_⟩
      change ¬_ ∧ s.close.evicted.length = s.close.dropped ∨
        _ ∧ s.close.closed = true ∧ s.close.evicted.length = s.close.dropped + 1
      simp only [hcloses, true_and, hget, Option.some.injEq, exists_eq_left', hclosed, hdropped,
        hevicted]
      rcases hcount with ⟨hnot, heq⟩ | ⟨hfull, hdone, heq⟩
      · cases hloses : s.losesOnClose with
        | false => exact .inl ⟨by simpa using hnot, by simpa using heq⟩
        | true => exact .inr ⟨.inr rfl, by simpa using heq⟩
      · have hloses : s.losesOnClose = false := by simp [losesOnClose, hdone]
        exact .inr ⟨.inl hfull, by simp [hloses, heq]⟩

/-- What a subscriber may rely on, of all that was published to it until it was closed. -/
structure Accounted (s : Subscription α) : Prop where
  /-- It gets some of the items, in order, and none twice. -/
  subsequence : (s.received.filterMap id).Sublist s.published
  /-- Those that left the queue are the oldest, got or dropped, and the others are queued. -/
  fifo : s.published = s.gone.map Prod.fst ++ s.queued
  got : s.received.filterMap id = s.consumed
  counted : s.policy = .dropOldest → s.evicted.length = s.dropped
  kept : s.policy = .unbounded → s.evicted = []
  /-- The sentinel comes when the queue is empty, and nothing after it. -/
  sentinel : none ∈ s.received → s.queue = [] ∧
    ∃ items : List (BusMessage α), s.received = items.map some ++ [none]
  /-- It is behind all that is queued. -/
  behind : s.closed = true → none ∉ s.received → s.queue = s.queued.map some ++ [none]

/-- A subscription of a run is accounted for if and only if the run did not close it with a full
queue. -/
theorem accounted_iff (hrun : run step {} is = some b) (hsub : b.subs[i]? = some s) :
    Accounted s ↔ ¬ClosesFull is i := by
  obtain ⟨hinv, hcount⟩ := (inv_of_run hrun).2 i s hsub
  constructor
  · intro h hfull
    obtain ⟨-, hclosed, hmore⟩ := hcount.resolve_left fun h => h.1 hfull
    cases hpolicy : s.policy with
    | dropOldest =>
      have := h.counted hpolicy
      omega
    | unbounded =>
      rw [h.kept hpolicy, List.length_nil] at hmore
      omega
  · intro hnot
    obtain ⟨-, heq⟩ := hcount.resolve_right fun h => hnot h.1
    have hgone : (s.received.filterMap id).Sublist (s.gone.map Prod.fst) := by
      rw [hinv.got]
      exact List.filter_sublist.map Prod.fst
    exact {
      subsequence := by
        rw [hinv.fifo]
        exact hgone.trans (List.sublist_append_left _ _)
      fifo := hinv.fifo
      got := hinv.got
      counted := fun _ => heq
      kept := hinv.kept
      sentinel := fun hmem => by
        cases hclosed : s.closed with
        | false => exact absurd hmem (hinv.opened hclosed).2
        | true => exact (hinv.ending hclosed).resolve_left fun h => h.1 hmem
      behind := fun hclosed hmem => by
        refine ((hinv.ending hclosed).resolve_right ?_).2
        rintro ⟨-, items, hitems⟩
        exact hmem (by simp [hitems]) }

/-- The runs of one subscription, of two items to a queue of one. -/
def closeRun (drain : Bool) : List (BusEvent ℕ) :=
  [.subscribe ["state.*"] 1 .dropOldest 10, .publish "state.epoch" 1, .publish "state.epoch" 2]
    ++ (if drain then [.get 0] else []) ++ [.unsubscribe 0]

def drainedSub : Subscription ℕ where
  patterns := ["state.*"]
  policy := .dropOldest
  maxsize := 1
  highWater := 10
  attached := false
  queue := [none]
  dropped := 1
  closed := true
  published := [("state.epoch", 1), ("state.epoch", 2)]
  received := [some ("state.epoch", 2)]
  gone := [(("state.epoch", 1), false), (("state.epoch", 2), true)]

theorem accounted_iff_drained :
    run step {} (closeRun true) = some ⟨[drainedSub]⟩ ∧
      (Accounted drainedSub ↔ ¬ClosesFull (closeRun true) 0) :=
  ⟨rfl, accounted_iff (b := ⟨[drainedSub]⟩) rfl rfl⟩

/-- A queue that is closed full : its item is dropped, and not counted. -/
def fullSub : Subscription ℕ :=
  { drainedSub with
    received := []
    gone := [(("state.epoch", 1), false), (("state.epoch", 2), false)] }

theorem closed_full_not_accounted :
    run step {} (closeRun false) = some ⟨[fullSub]⟩ ∧ ¬Accounted fullSub :=
  ⟨rfl, fun h => absurd (h.counted rfl) (by decide)⟩

end Bus

end Mtrtk
