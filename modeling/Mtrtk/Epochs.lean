import Mathlib.Data.List.Chain
import Mathlib.Data.Rat.Init
import Mathlib.Tactic.Common

/-!
# Epochs

`core/statestore.py` : `StateStore` publishes `state.epoch` when an epoch ends. A NAV-EOE
ends one, and in a stream that carries none the first message of the next one does
(`_infer_epoch_end`). The model has the state of this decision. What the messages write into
`ReceiverState` is left out.

A stream is a list of runs of messages with one iTOW each (`NavRun`), with resets and ends
of stream between them (`StreamItem`). `current` and `openRun` are not in the source : the
run whose messages are applied, and the run of the message that was last taken for a part
of the open epoch. `published` lists the runs that were published.

`Opening` is what the first message of a run can do, and `StateStore.applyRun_eq` a whole
run.
-/

namespace Mtrtk

def eoeMissedLimit : ℕ := 2

/-- EPOCH_NAV_MESSAGES. -/
def epochNavMessages : List String :=
  ["NAV-PVT", "NAV-HPPOSLLH", "NAV-HPPOSECEF", "NAV-DOP", "NAV-STATUS", "NAV-CLOCK",
    "NAV-TIMEGPS", "NAV-TIMELS", "NAV-TIMEUTC", "NAV-SAT", "NAV-SIG", "NAV-SVIN",
    "NAV-RELPOSNED"]

/-- A parsed NAV-* frame, and when it is applied. -/
structure NavFrame where
  identity : String
  itow : ℕ
  mono : ℚ := 0
  deriving DecidableEq, Repr

/-- `StateStore`, as far as it decides when epochs end. -/
structure StateStore where
  sawEoe : Bool := false
  eoeItow : Option ℕ := none
  missedEoe : ℕ := 0
  openItow : Option ℕ := none
  openWhole : Bool := false
  openMono : ℚ := 0
  inferred : Bool := false
  eoeFlips : ℕ := 0
  epochCount : ℕ := 0
  lastEpochMono : Option ℚ := none
  current : ℕ := 0
  openRun : ℕ := 0
  published : List ℕ := []
  deriving DecidableEq, Repr

namespace StateStore

/-- `_close_epoch` : publish the state, in which the messages of `run` are the last. -/
def closeEpoch (s : StateStore) (run : ℕ) (mono : ℚ) : StateStore :=
  { s with
    epochCount := s.epochCount + 1
    lastEpochMono := some mono
    published := s.published ++ [run] }

/-- `reset_epoch_inference`. -/
def resetEpochInference (s : StateStore) : StateStore :=
  { s with openItow := none, openWhole := false, missedEoe := 0 }

/-- `end_of_stream`. -/
def endOfStream (s : StateStore) : StateStore :=
  if !s.sawEoe && s.openItow.isSome && s.openWhole then
    (s.closeEpoch s.openRun s.openMono).resetEpochInference
  else s.resetEpochInference

/-- NAV-EOE stopped coming. -/
def forgetEoe (s : StateStore) : StateStore :=
  { s with sawEoe := false, missedEoe := 0, eoeFlips := s.eoeFlips + 1 }

/-- The open epoch ended in a stream with NAV-EOE. -/
def countMissed (s : StateStore) : StateStore :=
  if s.openItow = s.eoeItow then { s with missedEoe := 0 }
  else if s.missedEoe + 1 < eoeMissedLimit then { s with missedEoe := s.missedEoe + 1 }
  else if s.openWhole then s.forgetEoe.closeEpoch s.openRun s.openMono
  else s.forgetEoe

/-- The branches of `_infer_epoch_end` on a new iTOW. -/
def endOpen (s : StateStore) (identity : String) : StateStore :=
  match s.openItow with
  | none => { s with openWhole := identity = "NAV-PVT" }
  | some _ =>
    if s.sawEoe then { s.countMissed with openWhole := true }
    else if s.openWhole then { s with inferred := true }.closeEpoch s.openRun s.openMono
    else { s with openWhole := true }

/-- The message is a part of the open epoch. -/
def extend (s : StateStore) (mono : ℚ) : StateStore :=
  { s with openMono := mono, openRun := s.current }

/-- `_infer_epoch_end`. -/
def inferEpochEnd (s : StateStore) (itow : ℕ) (identity : String) (mono : ℚ) : StateStore :=
  if s.openItow = some itow then s.extend mono
  else { s.endOpen identity with openItow := some itow }.extend mono

/-- `_nav_eoe`. -/
def navEoe (s : StateStore) (itow : ℕ) (mono : ℚ) : StateStore :=
  let s := if s.sawEoe then s else { s with sawEoe := true }.resetEpochInference
  { s with eoeItow := some itow, missedEoe := 0 }.closeEpoch s.current mono

/-- `apply` of a NAV-* frame. -/
def apply (s : StateStore) (frame : NavFrame) : StateStore :=
  if frame.identity ∈ epochNavMessages then s.inferEpochEnd frame.itow frame.identity frame.mono
  else if frame.identity = "NAV-EOE" then s.navEoe frame.itow frame.mono
  else s

end StateStore

/-! ## Streams -/

/-- A run of messages with one iTOW. Its messages other than NAV-EOE are given by identity
and time, its NAV-EOE, if it has one, is the last. -/
structure NavRun where
  itow : ℕ
  messages : List (String × ℚ)
  eoe : Option ℚ := none
  noEoe : ∀ m ∈ messages, m.1 ≠ "NAV-EOE" := by decide

namespace NavRun

def frames (r : NavRun) : List NavFrame :=
  r.messages.map (fun m => ⟨m.1, r.itow, m.2⟩) ++ r.eoe.toList.map (⟨"NAV-EOE", r.itow, ·⟩)

/-- The identity of the first message that counts for an epoch. -/
def opening (r : NavRun) : Option String :=
  (r.messages.find? (·.1 ∈ epochNavMessages)).map Prod.fst

end NavRun

inductive StreamItem
  | run (r : NavRun)
  | reset
  | endOfStream

def StreamItem.isRun : StreamItem → Bool
  | .run _ => true
  | _ => false

namespace StateStore

def applyRun (s : StateStore) (r : NavRun) : StateStore :=
  { r.frames.foldl apply s with current := s.current + 1 }

def feed (s : StateStore) : StreamItem → StateStore
  | .run r => s.applyRun r
  | .reset => s.resetEpochInference
  | .endOfStream => s.endOfStream

/-- A new store after a stream. -/
def play (items : List StreamItem) : StateStore := items.foldl feed {}

/-! ## What a run does -/

/-- The messages of a run other than its NAV-EOE. -/
def opened (s : StateStore) (r : NavRun) (mono : ℚ) : StateStore :=
  match r.opening with
  | none => s
  | some identity => s.inferEpochEnd r.itow identity mono

/-- The NAV-EOE of a run. -/
def closed (s : StateStore) (r : NavRun) : StateStore :=
  match r.eoe with
  | none => s
  | some mono => s.navEoe r.itow mono

@[simp] theorem countMissed_current (s : StateStore) : s.countMissed.current = s.current := by
  unfold countMissed
  split_ifs <;> rfl

@[simp] theorem endOpen_current (s : StateStore) (identity : String) :
    (s.endOpen identity).current = s.current := by
  unfold endOpen
  split
  · rfl
  · split_ifs <;> simp [closeEpoch]

@[simp] theorem inferEpochEnd_openItow (s : StateStore) (itow : ℕ) (identity : String) (mono : ℚ) :
    (s.inferEpochEnd itow identity mono).openItow = some itow := by
  unfold inferEpochEnd
  split_ifs with h
  · exact h
  · rfl

@[simp] theorem inferEpochEnd_current (s : StateStore) (itow : ℕ) (identity : String)
    (mono : ℚ) : (s.inferEpochEnd itow identity mono).current = s.current := by
  unfold inferEpochEnd
  split_ifs <;> simp [extend]

/-- Only the first message of a run can end an epoch, the others bring the time forward. -/
theorem inferEpochEnd_again (s : StateStore) (itow : ℕ) (identity identity' : String)
    (mono mono' : ℚ) : (s.inferEpochEnd itow identity mono).inferEpochEnd itow identity' mono' =
      s.inferEpochEnd itow identity mono' := by
  rw [inferEpochEnd, if_pos (inferEpochEnd_openItow ..)]
  unfold inferEpochEnd
  split_ifs <;> rfl

theorem foldl_apply_opened (s : StateStore) (itow : ℕ) (identity : String) :
    ∀ (messages : List (String × ℚ)) (mono : ℚ), (∀ m ∈ messages, m.1 ≠ "NAV-EOE") →
      ∃ mono', (messages.map fun m => (⟨m.1, itow, m.2⟩ : NavFrame)).foldl apply
        (s.inferEpochEnd itow identity mono) = s.inferEpochEnd itow identity mono'
  | [], mono, _ => ⟨mono, rfl⟩
  | m :: messages, mono, h => by
    obtain ⟨hm, hrest⟩ := List.forall_mem_cons.1 h
    by_cases hepoch : m.1 ∈ epochNavMessages
    · obtain ⟨mono', hfold⟩ := foldl_apply_opened s itow identity messages m.2 hrest
      exact ⟨mono', by simpa [apply, hepoch, inferEpochEnd_again] using hfold⟩
    · obtain ⟨mono', hfold⟩ := foldl_apply_opened s itow identity messages mono hrest
      exact ⟨mono', by simpa [apply, hepoch, hm] using hfold⟩

theorem foldl_apply (s : StateStore) (itow : ℕ) :
    ∀ messages : List (String × ℚ), (∀ m ∈ messages, m.1 ≠ "NAV-EOE") →
      ∃ mono, (messages.map fun m => (⟨m.1, itow, m.2⟩ : NavFrame)).foldl apply s =
        match (messages.find? (·.1 ∈ epochNavMessages)).map Prod.fst with
        | none => s
        | some identity => s.inferEpochEnd itow identity mono
  | [], _ => ⟨0, rfl⟩
  | m :: messages, h => by
    obtain ⟨hm, hrest⟩ := List.forall_mem_cons.1 h
    by_cases hepoch : m.1 ∈ epochNavMessages
    · obtain ⟨mono, hfold⟩ := foldl_apply_opened s itow m.1 messages m.2 hrest
      exact ⟨mono, by simpa [apply, hepoch] using hfold⟩
    · obtain ⟨mono, hfold⟩ := foldl_apply s itow messages hrest
      exact ⟨mono, by simpa [apply, hepoch, hm] using hfold⟩

/-- A run is its first message that counts, and its NAV-EOE. -/
theorem applyRun_eq (s : StateStore) (r : NavRun) :
    ∃ mono, s.applyRun r = { (s.opened r mono).closed r with current := s.current + 1 } := by
  obtain ⟨mono, hfold⟩ := foldl_apply s r.itow r.messages r.noEoe
  refine ⟨mono, ?_⟩
  unfold applyRun NavRun.frames
  rw [List.foldl_append, hfold]
  unfold closed opened NavRun.opening
  cases r.eoe <;> rfl

@[simp] theorem countMissed_eoeItow (s : StateStore) : s.countMissed.eoeItow = s.eoeItow := by
  unfold countMissed
  split_ifs <;> rfl

@[simp] theorem endOpen_eoeItow (s : StateStore) (identity : String) :
    (s.endOpen identity).eoeItow = s.eoeItow := by
  unfold endOpen
  split
  · rfl
  · split_ifs <;> simp [closeEpoch]

@[simp] theorem inferEpochEnd_eoeItow (s : StateStore) (itow : ℕ) (identity : String)
    (mono : ℚ) : (s.inferEpochEnd itow identity mono).eoeItow = s.eoeItow := by
  unfold inferEpochEnd
  split_ifs <;> simp [extend]

@[simp] theorem inferEpochEnd_openRun (s : StateStore) (itow : ℕ) (identity : String)
    (mono : ℚ) : (s.inferEpochEnd itow identity mono).openRun = s.current := by
  unfold inferEpochEnd
  split_ifs <;> simp [extend]

/-- The run that is published when the open epoch is closed by inference. -/
def pending (s : StateStore) : List ℕ := if s.openWhole then [s.openRun] else []

/-- What the first message of a run does with the epoch that is open : it goes on with it,
there is none, it was closed, its NAV-EOE is missing, or it is closed by inference. -/
inductive Opening (s : StateStore) (itow : ℕ) (identity : String) (t : StateStore) : Prop
  | same (ho : s.openItow = some itow) (hs : t.sawEoe = s.sawEoe)
      (hm : t.missedEoe = s.missedEoe) (hw : t.openWhole = s.openWhole)
      (hp : t.published = s.published)
  | first (ho : s.openItow = none) (hs : t.sawEoe = s.sawEoe) (hm : t.missedEoe = s.missedEoe)
      (hw : t.openWhole = decide (identity = "NAV-PVT")) (hp : t.published = s.published)
  | ended (ho : s.openItow = s.eoeItow) (hne : s.openItow ≠ none) (hs : s.sawEoe = true)
      (hs' : t.sawEoe = true) (hm : t.missedEoe = 0) (hw : t.openWhole = true)
      (hp : t.published = s.published)
  | missed (ho : s.openItow ≠ s.eoeItow) (hne : s.openItow ≠ none) (hs : s.sawEoe = true)
      (hlt : s.missedEoe + 1 < eoeMissedLimit) (hs' : t.sawEoe = true)
      (hm : t.missedEoe = s.missedEoe + 1) (hw : t.openWhole = true)
      (hp : t.published = s.published)
  | stopped (ho : s.openItow ≠ s.eoeItow) (hne : s.openItow ≠ none) (hs : s.sawEoe = true)
      (hle : eoeMissedLimit ≤ s.missedEoe + 1) (hs' : t.sawEoe = false) (hw : t.openWhole = true)
      (hp : t.published = s.published ++ s.pending)
  | inferred (hne : s.openItow ≠ none) (hs : s.sawEoe = false) (hs' : t.sawEoe = false)
      (hw : t.openWhole = true) (hp : t.published = s.published ++ s.pending)

theorem opening_countMissed {s : StateStore} {itow : ℕ} {identity : String}
    (hne : s.openItow ≠ none) (hs : s.sawEoe = true) :
    Opening s itow identity { s.countMissed with openWhole := true } := by
  unfold countMissed
  split_ifs with heoe hlt hw
  · exact .ended heoe hne hs hs rfl rfl rfl
  · exact .missed heoe hne hs hlt hs rfl rfl rfl
  · exact .stopped heoe hne hs (not_lt.1 hlt) rfl rfl (by rw [pending, if_pos hw]; rfl)
  · exact .stopped heoe hne hs (not_lt.1 hlt) rfl rfl (by rw [pending, if_neg hw]; simp [forgetEoe])

theorem opening_endOpen (s : StateStore) (itow : ℕ) (identity : String) :
    Opening s itow identity (s.endOpen identity) := by
  unfold endOpen
  split
  · next ho => exact .first ho rfl rfl rfl rfl
  · next o ho =>
    have hne : s.openItow ≠ none := by simp [ho]
    split_ifs with hs hw
    · exact opening_countMissed hne hs
    · exact .inferred hne (by simpa using hs) (by simpa [closeEpoch] using hs) hw
        (by rw [pending, if_pos hw]; rfl)
    · exact .inferred hne (by simpa using hs) (by simpa using hs) rfl
        (by rw [pending, if_neg hw]; simp)

theorem opening_inferEpochEnd (s : StateStore) (itow : ℕ) (identity : String) (mono : ℚ) :
    Opening s itow identity (s.inferEpochEnd itow identity mono) := by
  unfold inferEpochEnd
  split_ifs with hsame
  · exact .same hsame rfl rfl rfl rfl
  · rcases opening_endOpen s itow identity with
      ⟨ho, h₁, h₂, h₃, h₄⟩ | ⟨ho, h₁, h₂, h₃, h₄⟩ | ⟨ho, hne, hs, h₁, h₂, h₃, h₄⟩ |
      ⟨ho, hne, hs, hlt, h₁, h₂, h₃, h₄⟩ | ⟨ho, hne, hs, hle, h₁, h₃, h₄⟩ | ⟨hne, hs, h₁, h₃, h₄⟩
    · exact absurd ho hsame
    · exact .first ho h₁ h₂ h₃ h₄
    · exact .ended ho hne hs h₁ h₂ h₃ h₄
    · exact .missed ho hne hs hlt h₁ h₂ h₃ h₄
    · exact .stopped ho hne hs hle h₁ h₃ h₄
    · exact .inferred hne hs h₁ h₃ h₄

end StateStore

end Mtrtk
