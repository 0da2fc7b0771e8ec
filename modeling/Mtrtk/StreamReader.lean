import Mathlib.Data.List.Infix
import Mathlib.Tactic.Common

/-!
# A byte stream that arrives in pieces

`asyncio.StreamReader` at the end of a TCP connection. The bytes arrive in segments, and a call
finds some of them there and waits for others : `segments` is how the stream is cut, and `early`
how many segments are there before each call. A call that raises ends every session that makes
it, so it is `none`.

What a call returns does not depend on either. `readline` and `readexactly` return what is next in
the stream (`readline_eq`, `readexactly_eq`), `read` some of it (`read_spec`).
-/

namespace Mtrtk

/-- `StreamReader` : what has arrived, the segments to come and then the end of the stream, and
how many of them arrive before each of the next calls. -/
structure StreamReader where
  buffer : List UInt8
  segments : List (List UInt8)
  early : List ℕ
  deriving DecidableEq, Repr

namespace StreamReader

/-- `"\n"`. -/
def newline : UInt8 := 0x0A

/-- The default `limit` of a line. -/
def limit : ℕ := 65536

/-- The bytes not read yet. -/
def left (r : StreamReader) : List UInt8 := r.buffer ++ r.segments.flatten

/-- `_wait_for_data`, again and again until the buffer is enough or the stream has ended. -/
def receive (enough : List UInt8 → Bool) :
    List UInt8 → List (List UInt8) → List UInt8 × List (List UInt8)
  | buffer, [] => (buffer, [])
  | buffer, segment :: segments =>
    if enough buffer then (buffer, segment :: segments)
    else receive enough (buffer ++ segment) segments

/-- The reader as a call finds it, and has waited for what it needs. -/
def wait (enough : List UInt8 → Bool) (r : StreamReader) : StreamReader :=
  let n := r.early.headD 0
  let got := receive enough (r.buffer ++ (r.segments.take n).flatten) (r.segments.drop n)
  ⟨got.1, got.2, r.early.tail⟩

/-- The first `n` bytes of the buffer. -/
def shift (n : ℕ) (r : StreamReader) : List UInt8 × StreamReader :=
  (r.buffer.take n, { r with buffer := r.buffer.drop n })

/-- `read(n)`. -/
def read (n : ℕ) (r : StreamReader) : List UInt8 × StreamReader :=
  (r.wait fun buffer => !buffer.isEmpty).shift n

/-- The buffer holds the end of the line, or more than a line may have. -/
def endsLine (buffer : List UInt8) : Bool := newline ∈ buffer || limit < buffer.length

/-- `readline`, `none` for its `ValueError`. -/
def readline (r : StreamReader) : Option (List UInt8 × StreamReader) :=
  let r := r.wait endsLine
  if newline ∈ r.buffer then
    let isep := r.buffer.idxOf newline
    if isep > limit then none else some (r.shift (isep + 1))
  else if r.buffer.length > limit then none
  else some (r.shift r.buffer.length)

/-- `readexactly(n)`, `none` for its `IncompleteReadError`. -/
def readexactly (n : ℕ) (r : StreamReader) : Option (List UInt8 × StreamReader) :=
  let r := r.wait fun buffer => n ≤ buffer.length
  if r.buffer.length < n then none else some (r.shift n)

/-! ## What a call waits for -/

theorem receive_append (enough : List UInt8 → Bool) (buffer : List UInt8)
    (segments : List (List UInt8)) :
    (receive enough buffer segments).1 ++ (receive enough buffer segments).2.flatten =
      buffer ++ segments.flatten := by
  induction segments generalizing buffer with
  | nil => rfl
  | cons segment segments ih =>
    rw [receive]
    split
    · rfl
    · rw [ih, List.flatten_cons, List.append_assoc]

theorem receive_enough (enough : List UInt8 → Bool) (buffer : List UInt8)
    (segments : List (List UInt8)) :
    enough (receive enough buffer segments).1 = true ∨
      (receive enough buffer segments).2 = [] := by
  induction segments generalizing buffer with
  | nil => exact .inr rfl
  | cons segment segments ih =>
    rw [receive]
    split
    · exact .inl (by assumption)
    · exact ih _

variable (enough : List UInt8 → Bool) (r : StreamReader)

theorem left_wait : (r.wait enough).left = r.left := by
  rw [left, wait, receive_append, left, List.append_assoc, ← List.flatten_append,
    List.take_append_drop]

/-- A call has enough, or all there is. -/
theorem wait_enough : enough (r.wait enough).buffer = true ∨ (r.wait enough).buffer = r.left := by
  obtain h | h := receive_enough enough (r.buffer ++ (r.segments.take (r.early.headD 0)).flatten)
    (r.segments.drop (r.early.headD 0))
  · exact .inl h
  · refine .inr ?_
    rw [← left_wait enough r, left, show (r.wait enough).segments = [] from h, List.flatten_nil,
      List.append_nil]

theorem buffer_isPrefix : (r.wait enough).buffer <+: r.left := by
  rw [← left_wait enough r]
  exact List.prefix_append _ _

theorem shift_append (n : ℕ) : (r.shift n).1 ++ (r.shift n).2.left = r.left := by
  rw [shift, left, ← List.append_assoc, List.take_append_drop, left]

/-! ## What a call returns -/

variable {r : StreamReader}

/-- `read` takes some bytes, and none only at the end of the stream. -/
theorem read_spec {n : ℕ} (hn : 0 < n) (r : StreamReader) :
    (r.read n).1 ++ (r.read n).2.left = r.left ∧ (r.read n).1.length ≤ n ∧
      ((r.read n).1 = [] → r.left = []) := by
  refine ⟨?_, ?_, fun h => ?_⟩
  · rw [read, shift_append, left_wait]
  · rw [read, shift, List.length_take]
    omega
  · rw [read, shift, List.take_eq_nil_iff] at h
    obtain h | h := h
    · omega
    · obtain henough | hall := wait_enough (fun buffer => !buffer.isEmpty) r
      · simp [h] at henough
      · rw [← hall, h]

theorem readexactly_left {n : ℕ} {data : List UInt8} {r' : StreamReader}
    (h : r.readexactly n = some (data, r')) : data ++ r'.left = r.left := by
  simp only [readexactly] at h
  split at h
  · simp at h
  · obtain ⟨rfl, rfl⟩ := Prod.ext_iff.1 (Option.some.inj h)
    rw [shift_append, left_wait]

theorem readline_left {line : List UInt8} {r' : StreamReader}
    (h : r.readline = some (line, r')) : line ++ r'.left = r.left := by
  have key : ∀ n, some ((r.wait endsLine).shift n) = some (line, r') →
      line ++ r'.left = r.left := fun n hn => by
    obtain ⟨rfl, rfl⟩ := Prod.ext_iff.1 (Option.some.inj hn)
    rw [shift_append, left_wait]
  simp only [readline] at h
  split_ifs at h
  · exact key _ h
  · exact key _ h

/-- The first `n` bytes of a buffer that holds them. -/
theorem shift_eq (data rest : List UInt8) (hleft : r.left = data ++ rest)
    (hlen : data.length ≤ r.buffer.length) :
    (r.shift data.length).1 = data ∧ (r.shift data.length).2.left = rest := by
  have happ := shift_append r data.length
  rw [hleft] at happ
  refine List.append_inj happ ?_
  rw [shift, List.length_take]
  omega

theorem readexactly_eq {data rest : List UInt8} (h : r.left = data ++ rest) :
    ∃ r', r.readexactly data.length = some (data, r') ∧ r'.left = rest := by
  have hlen : data.length ≤ (r.wait fun buffer => data.length ≤ buffer.length).buffer.length := by
    obtain henough | hall := wait_enough (fun buffer => data.length ≤ buffer.length) r
    · simpa using henough
    · rw [hall, h, List.length_append]
      omega
  obtain ⟨hdata, hrest⟩ := shift_eq _ _ ((left_wait _ r).trans h) hlen
  refine ⟨_, ?_, hrest⟩
  rw [readexactly, if_neg (by omega)]
  exact congrArg some (Prod.ext hdata rfl)

/-- What has arrived of the stream either ends within the line or holds all of it. -/
theorem isPrefix_line {buffer line rest : List UInt8} (h : buffer <+: line ++ newline :: rest) :
    buffer <+: line ∨ ∃ more, buffer = line ++ newline :: more := by
  have hline : line ++ [newline] <+: line ++ newline :: rest := ⟨rest, by simp⟩
  obtain hshort | ⟨more, hmore⟩ := List.prefix_or_prefix_of_prefix h hline
  · obtain heq | hshort := List.prefix_concat_iff.1 hshort
    · exact .inr ⟨[], heq⟩
    · exact .inl hshort
  · exact .inr ⟨more, by simp [← hmore]⟩

/-- A line that is not too long is read with the newline that ends it. -/
theorem readline_eq (line rest : List UInt8) (h : r.left = line ++ newline :: rest)
    (hline : newline ∉ line) (hlen : line.length ≤ limit) :
    ∃ r', r.readline = some (line ++ [newline], r') ∧ r'.left = rest := by
  obtain ⟨more, hmore⟩ : ∃ more, (r.wait endsLine).buffer = line ++ newline :: more := by
    refine (isPrefix_line (h ▸ buffer_isPrefix endsLine r)).resolve_left fun hshort => ?_
    have hno : newline ∉ (r.wait endsLine).buffer := fun hmem => hline (hshort.subset hmem)
    obtain henough | hall := wait_enough endsLine r
    · have := hshort.length_le
      simp only [endsLine, hno, decide_false, Bool.false_or, decide_eq_true_eq] at henough
      omega
    · rw [hall, h] at hno
      simp at hno
  have hidx : (r.wait endsLine).buffer.idxOf newline = line.length := by
    rw [hmore, List.idxOf_append_of_notMem hline]
    simp
  obtain ⟨hdata, hrest⟩ := shift_eq (r := r.wait endsLine) (line ++ [newline]) rest
    (by rw [left_wait, h]; simp) (by rw [hmore]; simp)
  refine ⟨_, ?_, hrest⟩
  simp only [readline, hidx]
  rw [if_pos (by rw [hmore]; simp), if_neg (by omega)]
  refine congrArg some (Prod.ext ?_ ?_)
  · simpa using hdata
  · simp

end StreamReader

end Mtrtk
