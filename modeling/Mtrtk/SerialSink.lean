import Mathlib.Data.Int.Notation
import Mtrtk.Delimited

/-!
# NMEA sentences on a serial port

`rover/sinks.py` : `SerialSink.write` sends what is pending with non-blocking writes, which may take
some of it or nothing. What was taken waits in the kernel's queue for the reader. When the queue is
full, and when too much is pending, `_discard_queued` empties the queue and drops what is left of
a sentence whose start was in it.

The machine takes a step for each call to the kernel, and the reader may take bytes between any two
of them. What a discard does not know is whether the reader has taken a part of the sentence it
drops. `unspliced_iff` : no sentence begins inside another for the reader just where nothing is read
after a discard that found the reader inside a sentence.
-/

namespace Mtrtk

open Delimited

/-- `b"$"`. -/
def dollar : UInt8 := 0x24

/-- `b"\n"`. -/
def lineFeed : UInt8 := 0x0A

/-- A sentence, by what is between `$` and CR LF. -/
structure Sentence where
  body : List UInt8
  noDollar : dollar ∉ body
  noLineFeed : lineFeed ∉ body

/-- The bytes of a sentence. -/
def Sentence.bytes (sentence : Sentence) : List UInt8 :=
  dollar :: (sentence.body ++ [0x0D, lineFeed])

/-- Why the queue is discarded. -/
inductive Discard
  /-- A write found it full. -/
  | full
  /-- More is pending than may be. -/
  | backlog
  deriving DecidableEq, Repr

/-- Where `write` stands. -/
inductive SerialPhase
  | idle
  /-- In `_send`, which may be the second. -/
  | sending (again : Bool)
  /-- In `_discard_queued`, before the count of the queue. -/
  | counting (why : Discard)
  /-- In `_discard_queued`, before `tcflush`. -/
  | flushing (why : Discard)
  deriving DecidableEq, Repr

/-- `SerialSink`, the kernel's queue behind it, and what the reader has taken from that. -/
structure SerialSink where
  pending : List UInt8 := []
  droppedBytes : ℕ := 0
  phase : SerialPhase := .idle
  queue : List UInt8 := []
  received : List UInt8 := []
  deriving DecidableEq, Repr

/-- What happens at the sink. -/
inductive SerialEvent
  /-- `write` is called with whole sentences. -/
  | write (sentences : List Sentence)
  /-- `os.write` takes so many bytes. -/
  | wrote (n : ℕ)
  /-- `os.write` raises `BlockingIOError`. -/
  | blocked
  /-- The size of the queue is asked for, and perhaps known. -/
  | counted (known : Bool)
  /-- `tcflush`. -/
  | flushed
  /-- The reader takes so many bytes. -/
  | read (n : ℕ)

namespace SerialSink

/-- `SERIAL_BACKLOG_LIMIT`. -/
def backlogLimit : ℕ := 16 * 1024

/-- `data.find(byte, start)`, where a negative start counts from the end. -/
def findFrom (byte : UInt8) (data : List UInt8) (start : ℤ) : Option ℕ :=
  let start := (if start < 0 then start + data.length else start).toNat
  ((data.drop start).findIdx? (· = byte)).map (· + start)

/-- The end of `write`. -/
def checkBacklog (s : SerialSink) : SerialSink :=
  { s with phase := if backlogLimit < s.pending.length then .counting .backlog else .idle }

/-- The condition of the loop of `_send`. -/
def sendOn (again : Bool) (s : SerialSink) : SerialSink :=
  if s.pending = [] then s.checkBacklog else { s with phase := .sending again }

/-- How much `_discard_queued` drops of what is pending. -/
def restLength (pending : List UInt8) : ℕ :=
  if pending ≠ [] ∧ pending.head? ≠ some dollar then
    match findFrom lineFeed pending 0 with
    | some nl => nl + 1
    | none => pending.length
  else 0

/-- How much `write` drops when too much is pending. -/
def backlogLength (pending : List UInt8) : ℕ :=
  (findFrom dollar pending (pending.length - backlogLimit)).getD pending.length

/-- Drop so much of what is pending. -/
def drop (s : SerialSink) (cut : ℕ) : SerialSink :=
  { s with droppedBytes := s.droppedBytes + cut, pending := s.pending.drop cut }

/-- `tcflush` and the rest of `_discard_queued`. -/
def discard (s : SerialSink) : SerialSink :=
  { s with queue := [] }.drop (restLength s.pending)

/-- The sink after an event, over a queue of `capacity` bytes. -/
def step (capacity : ℕ) (s : SerialSink) : SerialEvent → Option SerialSink
  | .write sentences =>
    if s.phase = .idle then
      some ({ s with pending := s.pending ++ sentences.flatMap Sentence.bytes }.sendOn false)
    else none
  | .wrote n =>
    match s.phase with
    | .sending again =>
      if n ≤ s.pending.length ∧ s.queue.length + n ≤ capacity then
        let sent :=
          { s with queue := s.queue ++ s.pending.take n, pending := s.pending.drop n }
        some (if n = 0 then sent.checkBacklog else sent.sendOn again)
      else none
    | _ => none
  | .blocked =>
    match s.phase with
    | .sending false => some { s with phase := .counting .full }
    | .sending true => some s.checkBacklog
    | _ => none
  | .counted known =>
    match s.phase with
    | .counting why =>
      some { s with
        droppedBytes := s.droppedBytes + if known then s.queue.length else 0
        phase := .flushing why }
    | _ => none
  | .flushed =>
    match s.phase with
    | .flushing .full => some (s.discard.sendOn true)
    | .flushing .backlog =>
      let s := s.discard
      some { s.drop (backlogLength s.pending) with phase := .idle }
    | _ => none
  | .read n =>
    if 0 < n ∧ n ≤ s.queue.length then
      some { s with queue := s.queue.drop n, received := s.received ++ s.queue.take n }
    else none

/-- What the reader has taken has a sentence that has not ended. -/
abbrev Inside (s : SerialSink) : Prop := Begun dollar lineFeed s.received

/-! ## What a step does -/

/-- What an event does to the bytes. -/
inductive Moves (s s' : SerialSink) : SerialEvent → Prop
  | write {sentences : List Sentence} (queue : s'.queue = s.queue)
    (pending : s'.pending = s.pending ++ sentences.flatMap Sentence.bytes)
    (received : s'.received = s.received) : Moves s s' (.write sentences)
  | wrote {n : ℕ} (queue : s'.queue = s.queue ++ s.pending.take n)
    (pending : s'.pending = s.pending.drop n)
    (received : s'.received = s.received) : Moves s s' (.wrote n)
  | still {e : SerialEvent} (queue : s'.queue = s.queue) (pending : s'.pending = s.pending)
    (received : s'.received = s.received) (he : e = .blocked ∨ ∃ known, e = .counted known) :
    Moves s s' e
  | flushed (queue : s'.queue = [])
    (pending : s'.pending = s.pending.drop (restLength s.pending) ∨
      s'.pending = (s.pending.drop (restLength s.pending)).drop
        (backlogLength (s.pending.drop (restLength s.pending))))
    (received : s'.received = s.received) : Moves s s' .flushed
  | read {n : ℕ} (pos : 0 < n) (le : n ≤ s.queue.length) (queue : s'.queue = s.queue.drop n)
    (pending : s'.pending = s.pending)
    (received : s'.received = s.received ++ s.queue.take n) : Moves s s' (.read n)

@[simp] theorem checkBacklog_pending (s : SerialSink) : s.checkBacklog.pending = s.pending := rfl
@[simp] theorem checkBacklog_queue (s : SerialSink) : s.checkBacklog.queue = s.queue := rfl
@[simp] theorem checkBacklog_received (s : SerialSink) : s.checkBacklog.received = s.received := rfl

@[simp] theorem sendOn_pending (s : SerialSink) (again : Bool) :
    (s.sendOn again).pending = s.pending := by
  unfold sendOn
  split <;> rfl

@[simp] theorem sendOn_queue (s : SerialSink) (again : Bool) :
    (s.sendOn again).queue = s.queue := by
  unfold sendOn
  split <;> rfl

@[simp] theorem sendOn_received (s : SerialSink) (again : Bool) :
    (s.sendOn again).received = s.received := by
  unfold sendOn
  split <;> rfl

theorem moves_of_step {capacity : ℕ} {s s' : SerialSink} {e : SerialEvent}
    (h : step capacity s e = some s') : Moves s s' e := by
  cases e with
  | write sentences =>
    simp only [step] at h
    split at h
    · obtain rfl := Option.some.inj h
      exact .write (by simp) (by simp) (by simp)
    · cases h
  | wrote n =>
    simp only [step] at h
    split at h
    · split at h
      · obtain rfl := Option.some.inj h
        split
        · exact .wrote (by simp) (by simp) (by simp)
        · exact .wrote (by simp) (by simp) (by simp)
      · cases h
    · cases h
  | blocked =>
    simp only [step] at h
    split at h
    · obtain rfl := Option.some.inj h
      exact .still rfl rfl rfl (.inl rfl)
    · obtain rfl := Option.some.inj h
      exact .still rfl rfl rfl (.inl rfl)
    · cases h
  | counted known =>
    simp only [step] at h
    split at h
    · obtain rfl := Option.some.inj h
      exact .still rfl rfl rfl (.inr ⟨known, rfl⟩)
    · cases h
  | flushed =>
    simp only [step] at h
    split at h
    · obtain rfl := Option.some.inj h
      exact .flushed (by simp [discard, drop]) (.inl (by simp [discard, drop]))
        (by simp [discard, drop])
    · obtain rfl := Option.some.inj h
      exact .flushed rfl (.inr rfl) rfl
    · cases h
  | read n =>
    simp only [step] at h
    split at h
    · next hn =>
      obtain rfl := Option.some.inj h
      exact .read hn.1 hn.2 rfl rfl rfl
    · cases h

/-! ## What is left for the reader -/

/-- Whether a reader is inside a sentence, after one more byte. -/
abbrev nextByte : Bool → UInt8 → Option Bool := next dollar lineFeed

theorem dollar_ne : dollar ≠ lineFeed := by decide

/-- The queue and what is pending are read to the end of a sentence, from `inside`. -/
def Aligned (inside : Bool) (s : SerialSink) : Prop :=
  ∃ t, run nextByte inside s.queue = some t ∧ run nextByte t s.pending = some false

theorem run_bytes (sentence : Sentence) : run nextByte false sentence.bytes = some false := by
  have hbody : lineFeed ∉ sentence.body ++ [0x0D] := by
    simpa using ⟨sentence.noLineFeed, by decide⟩
  have hdollar : dollar ∉ sentence.body ++ [0x0D] := by
    simpa using ⟨sentence.noDollar, by decide⟩
  have hbytes : sentence.bytes = dollar :: (sentence.body ++ [0x0D] ++ [lineFeed]) := by
    simp [Sentence.bytes]
  rw [hbytes]
  exact run_piece dollar_ne hdollar hbody

/-- What a search finds is at its place. -/
theorem exists_of_findFrom {byte : UInt8} {data : List UInt8} {start : ℤ} {i : ℕ}
    (h : findFrom byte data start = some i) :
    ∃ a b, data = a ++ byte :: b ∧ data.drop i = byte :: b ∧ data.drop (i + 1) = b := by
  obtain ⟨j, hj, rfl⟩ := Option.map_eq_some_iff.1 h
  obtain ⟨hlt, hbyte, -⟩ := List.findIdx?_eq_some_iff_getElem.1 hj
  generalize (if start < 0 then start + data.length else start).toNat = k at hlt hbyte ⊢
  rw [List.getElem_drop] at hbyte
  have hlen : j + k < data.length := by
    rw [List.length_drop] at hlt
    omega
  have hcons : data.drop (j + k) = byte :: data.drop (j + k + 1) := by
    rw [List.drop_eq_getElem_cons hlen]
    have hget : data[j + k] = data[k + j] := by congr 1; omega
    rw [hget, of_decide_eq_true hbyte]
  exact ⟨data.take (j + k), _, by rw [← hcons, List.take_append_drop], hcons, rfl⟩

/-- What is left of a sentence whose start is gone is dropped, and no more. -/
theorem run_drop_rest {t : Bool} {pending : List UInt8}
    (h : run nextByte t pending = some false) :
    run nextByte false (pending.drop (restLength pending)) = some false := by
  rw [restLength]
  split
  · rcases hfind : findFrom lineFeed pending 0 with _ | nl
    · rw [List.drop_length]
      rfl
    · obtain ⟨a, b, hpending, -, hdrop⟩ := exists_of_findFrom hfind
      rw [hpending] at h
      show run nextByte false (pending.drop (nl + 1)) = some false
      rw [hdrop]
      exact run_from_last dollar_ne h
  · next hstart =>
    cases pending with
    | nil => rfl
    | cons c pending =>
      obtain rfl : c = dollar := by simpa using hstart
      exact @run_from_first _ _ _ _ _ _ [] pending h

theorem run_drop_backlog {pending : List UInt8} (h : run nextByte false pending = some false) :
    run nextByte false (pending.drop (backlogLength pending)) = some false := by
  rw [backlogLength]
  rcases hfind : findFrom dollar pending (pending.length - backlogLimit) with _ | i
  · rw [Option.getD_none, List.drop_length]
    rfl
  · obtain ⟨a, b, hpending, hdrop, -⟩ := exists_of_findFrom hfind
    rw [hpending] at h
    rw [Option.getD_some, hdrop]
    exact run_from_first h

section Steps

variable {s s' : SerialSink} {e : SerialEvent} {inside : Bool}

/-- After a discard what is left begins with a sentence, wherever the reader is. -/
theorem aligned_of_flushed (h : Moves s s' .flushed) (hs : Aligned inside s) :
    Aligned false s' := by
  obtain ⟨t, -, hpending⟩ := hs
  cases h with
  | still _ _ _ he => simp at he
  | flushed hqueue hcut hreceived =>
    have hrest := run_drop_rest hpending
    refine ⟨false, by rw [hqueue]; rfl, ?_⟩
    rcases hcut with hcut | hcut
    · rwa [hcut]
    · rw [hcut]
      exact run_drop_backlog hrest

/-- The other events of the sink keep what is left at its place. -/
theorem Aligned.moves (hs : Aligned inside s) (h : Moves s s' e) (hflush : e ≠ .flushed)
    (hread : ∀ n, e ≠ .read n) : Aligned inside s' := by
  obtain ⟨t, hqueue, hpending⟩ := hs
  cases h with
  | @write sentences hqueue' hpending' _ =>
    have hdata := run_flatMap fun sentence (_ : sentence ∈ sentences) => run_bytes sentence
    refine ⟨t, by rwa [hqueue'], ?_⟩
    rw [hpending']
    exact run_append_iff.2 ⟨false, hpending, hdata⟩
  | @wrote n hqueue' hpending' _ =>
    rw [← List.take_append_drop n s.pending] at hpending
    obtain ⟨u, htake, hdrop⟩ := run_append_iff.1 hpending
    refine ⟨u, ?_, by rwa [hpending']⟩
    rw [hqueue']
    exact run_append_iff.2 ⟨t, hqueue, htake⟩
  | still hqueue' hpending' _ _ =>
    exact ⟨t, by rwa [hqueue'], by rwa [hpending']⟩
  | flushed => exact absurd rfl hflush
  | @read n => exact absurd rfl (hread n)

/-- What is read is where the reader goes on. -/
theorem Aligned.read {n : ℕ} (hs : Aligned inside s) (h : Moves s s' (.read n)) :
    ∃ t taken, s'.received = s.received ++ taken ∧ taken ≠ [] ∧
      run nextByte inside taken = some t ∧ Aligned t s' := by
  obtain ⟨t, hqueue, hpending⟩ := hs
  cases h with
  | still _ _ _ he => simp at he
  | read hpos hle hqueue' hpending' hreceived =>
    rw [← List.take_append_drop n s.queue] at hqueue
    obtain ⟨u, htake, hdrop⟩ := run_append_iff.1 hqueue
    refine ⟨u, s.queue.take n, hreceived, ?_, htake, t, by rwa [hqueue'], by rwa [hpending']⟩
    intro hnil
    have hlen := congrArg List.length hnil
    rw [List.length_take, List.length_nil] at hlen
    omega

end Steps

/-! ## Runs -/

/-- What the reader has taken goes on in what is left for it. -/
def Tracked (s : SerialSink) : Prop :=
  ∃ t, run nextByte false s.received = some t ∧ Aligned t s

theorem Tracked.unspliced {s : SerialSink} (h : Tracked s) :
    Unspliced dollar lineFeed s.received := by
  obtain ⟨t, hreceived, -⟩ := h
  exact unspliced_of_run dollar_ne hreceived

section Runs

variable {capacity : ℕ} {s s' : SerialSink} {e : SerialEvent} {events : List SerialEvent}

/-- A read, a discard, or what changes nothing of what the reader is to get. -/
theorem event_cases (e : SerialEvent) :
    (∃ n, e = .read n) ∨ e = .flushed ∨ e ≠ .flushed ∧ ∀ n, e ≠ .read n := by
  cases e with
  | read n => exact .inl ⟨n, rfl⟩
  | flushed => exact .inr (.inl rfl)
  | write sentences => exact .inr (.inr ⟨by simp, by simp⟩)
  | wrote n => exact .inr (.inr ⟨by simp, by simp⟩)
  | blocked => exact .inr (.inr ⟨by simp, by simp⟩)
  | counted known => exact .inr (.inr ⟨by simp, by simp⟩)

theorem moves_received (h : Moves s s' e) (hread : ∀ n, e ≠ .read n) :
    s'.received = s.received := by
  cases h with
  | write _ _ hreceived => exact hreceived
  | wrote _ _ hreceived => exact hreceived
  | still _ _ hreceived _ => exact hreceived
  | flushed _ _ hreceived => exact hreceived
  | @read n => exact absurd rfl (hread n)

/-- Every event but a discard that finds the reader inside a sentence. -/
theorem Tracked.moves (hs : Tracked s) (h : Moves s s' e) (hinside : e = .flushed → ¬s.Inside) :
    Tracked s' := by
  obtain ⟨t, hreceived, haligned⟩ := hs
  rcases event_cases e with ⟨n, rfl⟩ | rfl | ⟨hflush, hread⟩
  · obtain ⟨u, taken, htaken, -, hrun, haligned⟩ := haligned.read h
    refine ⟨u, ?_, haligned⟩
    rw [htaken]
    exact run_append_iff.2 ⟨t, hreceived, hrun⟩
  · have ht : t = false := by
      rw [← Bool.not_eq_true, ← begun_iff dollar_ne hreceived]
      exact hinside rfl
    rw [ht, ← moves_received h (by simp)] at hreceived
    exact ⟨false, hreceived, aligned_of_flushed h haligned⟩
  · rw [← moves_received h hread] at hreceived
    exact ⟨t, hreceived, haligned.moves h hflush hread⟩

/-- Wherever a run ends, what is left for the reader begins inside a sentence or outside. -/
theorem exists_aligned (h : Reachable (step capacity) {} s) : ∃ inside, Aligned inside s := by
  refine h.invariant (fun s => ∃ inside, Aligned inside s) ⟨false, false, rfl, rfl⟩ ?_
  rintro s e s' - ⟨inside, haligned⟩ hstep
  have hmoves := moves_of_step hstep
  rcases event_cases e with ⟨n, rfl⟩ | rfl | ⟨hflush, hread⟩
  · obtain ⟨u, -, -, -, -, haligned⟩ := haligned.read hmoves
    exact ⟨u, haligned⟩
  · exact ⟨false, aligned_of_flushed hmoves haligned⟩
  · exact ⟨inside, haligned.moves hmoves hflush hread⟩

/-- A run stays on the track, or has a first discard that finds the reader inside a sentence. -/
theorem tracked_or_discard (h : run (step capacity) {} events = some s) :
    Tracked s ∨ ∃ before after s₁, events = before ++ .flushed :: after ∧
      run (step capacity) {} before = some s₁ ∧ s₁.Inside ∧
      Unspliced dollar lineFeed s₁.received := by
  induction events using List.reverseRecOn generalizing s with
  | nil =>
    obtain rfl := Option.some.inj h
    exact .inl ⟨false, rfl, false, rfl, rfl⟩
  | append_singleton events e ih =>
    rw [run_append] at h
    obtain ⟨t, hrun, hlast⟩ := Option.bind_eq_some_iff.1 h
    have hstep : step capacity t e = some s := by simpa [run] using hlast
    rcases ih hrun with htracked | ⟨before, after, s₁, rfl, hrest⟩
    · by_cases hdiscard : e = .flushed ∧ t.Inside
      · obtain ⟨rfl, hinside⟩ := hdiscard
        exact .inr ⟨events, [], t, rfl, hrun, hinside, htracked.unspliced⟩
      · exact .inl (htracked.moves (moves_of_step hstep) fun he hinside =>
          hdiscard ⟨he, hinside⟩)
    · exact .inr ⟨before, after ++ [e], s₁, by simp, hrest⟩

/-- What the reader has taken stays, and only reads add to it. -/
theorem received_of_run (h : run (step capacity) s events = some s') :
    (∃ taken, s'.received = s.received ++ taken) ∧
      ((∀ n, .read n ∉ events) → s'.received = s.received) := by
  induction events generalizing s with
  | nil =>
    obtain rfl := Option.some.inj h
    exact ⟨⟨[], by simp⟩, fun _ => rfl⟩
  | cons e events ih =>
    obtain ⟨t, hstep, hrun⟩ := Option.bind_eq_some_iff.1 h
    have hmoves := moves_of_step hstep
    obtain ⟨⟨taken, htaken⟩, hkeep⟩ := ih hrun
    by_cases hread : ∃ n, e = .read n
    · obtain ⟨n, rfl⟩ := hread
      refine ⟨?_, fun hno => absurd List.mem_cons_self (hno n)⟩
      cases hmoves with
      | still _ _ _ he => simp at he
      | read _ _ _ _ hreceived => exact ⟨_, by rw [htaken, hreceived, List.append_assoc]⟩
    · have hsame := moves_received hmoves fun n hn => hread ⟨n, hn⟩
      refine ⟨⟨taken, by rw [htaken, hsame]⟩, fun hno => ?_⟩
      rw [hkeep fun n hn => hno n (List.mem_cons_of_mem _ hn), hsame]

/-- A reader that is inside a sentence, where what is left begins with another, reads that. -/
theorem spliced_of_read (haligned : Aligned false s) (hinside : s.Inside) {n : ℕ}
    (hn : .read n ∈ events) (h : run (step capacity) s events = some s') :
    ¬Unspliced dollar lineFeed s'.received := by
  induction events generalizing s with
  | nil => exact absurd hn List.not_mem_nil
  | cons e events ih =>
    obtain ⟨t, hstep, hrun⟩ := Option.bind_eq_some_iff.1 h
    have hmoves := moves_of_step hstep
    have hstay : (∀ n, e ≠ .read n) → Aligned false t → ¬Unspliced dollar lineFeed s'.received := by
      intro hread haligned
      have hlater : .read n ∈ events := (List.mem_cons.1 hn).resolve_left (hread n).symm
      exact ih haligned (by rwa [Inside, moves_received hmoves hread]) hlater hrun
    rcases event_cases e with ⟨m, rfl⟩ | rfl | ⟨hflush, hread⟩
    · obtain ⟨u, taken, htaken, hne, htakenRun, -⟩ := haligned.read hmoves
      obtain ⟨c, taken, rfl⟩ := List.exists_cons_of_ne_nil hne
      obtain ⟨v, hc, -⟩ := run_cons_iff.1 htakenRun
      obtain rfl := eq_first_of_next hc
      obtain ⟨more, hmore⟩ := (received_of_run hrun).1
      intro hunspliced
      rw [hmore, htaken] at hunspliced
      exact hunspliced.of_append _ _ rfl hinside
    · exact hstay (by simp) (aligned_of_flushed hmoves haligned)
    · exact hstay hread (haligned.moves hmoves hflush hread)

/-- No sentence begins inside another for the reader just where nothing is read after a discard
that found it inside a sentence. -/
theorem unspliced_iff (h : run (step capacity) {} events = some s) :
    Unspliced dollar lineFeed s.received ↔
      ∀ before after s₁, events = before ++ .flushed :: after →
        run (step capacity) {} before = some s₁ → s₁.Inside → ∀ n, .read n ∉ after := by
  constructor
  · rintro hunspliced before after s₁ rfl hbefore hinside n hn
    obtain ⟨t, hstep, hafter⟩ := run_rest h hbefore
    have hmoves := moves_of_step hstep
    obtain ⟨inside, haligned⟩ := exists_aligned ⟨before, hbefore⟩
    have hstill : t.Inside := by
      rwa [Inside, moves_received hmoves (by simp)]
    exact spliced_of_read (aligned_of_flushed hmoves haligned) hstill hn hafter hunspliced
  · intro hcond
    rcases tracked_or_discard h with htracked | ⟨before, after, s₁, rfl, hbefore, hinside, hfirst⟩
    · exact htracked.unspliced
    · have hno := hcond before after s₁ rfl hbefore hinside
      obtain ⟨t, hstep, hafter⟩ := run_rest h hbefore
      rw [(received_of_run hafter).2 hno, moves_received (moves_of_step hstep) (by simp)]
      exact hfirst

end Runs

/-- `$A` CR LF. -/
def sentenceA : Sentence := ⟨[0x41], by decide, by decide⟩

/-- A reader that comes after the first sentences are discarded. -/
def lateReader : List SerialEvent :=
  [.write [sentenceA, sentenceA], .wrote 6, .blocked, .counted true, .flushed,
    .write [sentenceA], .wrote 4, .read 4]

theorem unspliced_lateReader :
    ∃ s, run (step 6) {} lateReader = some s ∧ Unspliced dollar lineFeed s.received := by
  refine ⟨_, rfl, (@unspliced_iff 6 _ lateReader rfl).2 ?_⟩
  intro before after s₁ hsplit hbefore hinside
  -- The discard comes before anything is read.
  have heq : before = lateReader.take 4 := by
    simp only [lateReader, List.cons_eq_append_iff, reduceCtorEq, false_and, and_false, false_or,
      List.cons.injEq] at hsplit
    obtain ⟨_, rfl, _, rfl, _, rfl, _, rfl, ⟨rfl, -⟩ | ⟨_, -, _, -, _, -, _, -, hend⟩⟩ := hsplit
    · rfl
    · simp at hend
  subst heq
  obtain rfl := Option.some.inj hbefore
  obtain ⟨a, b, hnil, -⟩ := hinside
  simp at hnil

/-- A reader that has taken half of a sentence when the queue is full. -/
def slowReader : List SerialEvent :=
  [.write [sentenceA, sentenceA], .wrote 8, .read 2, .write [sentenceA], .wrote 2, .blocked,
    .counted true, .flushed, .write [sentenceA], .wrote 4, .read 4]

theorem spliced_slowReader :
    ∃ s, run (step 8) {} slowReader = some s ∧
      s.received = [dollar, 0x41, dollar, 0x41, 0x0D, lineFeed] ∧
      ¬Unspliced dollar lineFeed s.received := by
  refine ⟨_, rfl, rfl, fun h => ?_⟩
  exact h [dollar, 0x41] [0x41, 0x0D, lineFeed] rfl ⟨[], [0x41], rfl, by decide⟩

end SerialSink

end Mtrtk
