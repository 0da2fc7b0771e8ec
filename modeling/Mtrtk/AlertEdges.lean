import Mathlib.Data.Finset.Basic
import Mathlib.Data.List.Chain
import Mtrtk.Alerts

/-!
# Conditions and their events

What the events table says of a condition is the list of its edges : a row of its kind is a rise,
one of its cleared kind a fall. In step with the table the edges alternate, a rise first, and
`active` has the condition if and only if the last of them is a rise (`InStep`).

`raise_` fills the slot after its row is written, but `clear` empties it before. So an add of the
cleared kind that is lost leaves the table at a rise that nothing will end, and the next raise
stores a second one. So does a rise whose add raises after its row is stored. These adds spoil the
condition (`spoils`), and no others do : it is in step after every message if and only if no add
spoils it (`alternate_iff_spared`).

`EdgeLog` is a condition with its edges and nothing else. A rule is made of raises, clears and
events of other kinds (`Upkeep`), and each of them takes a step of `EdgeLog` or none.
-/

namespace Mtrtk

open EventsRepo

/-! ## A condition and its edges -/

/-- The edges written of a condition, whether it is active, and whether no write spoiled it. -/
@[ext]
structure EdgeLog where
  edges : List Bool := []
  active : Bool := false
  spared : Bool := true

/-- Whether the last edge is a rise. -/
def lastRises (edges : List Bool) : Bool := edges.getLast? = some true

/-- The edges alternate, a rise first. -/
def Alternate (edges : List Bool) : Prop :=
  edges.IsChain (· ≠ ·) ∧ ∀ b ∈ edges.head?, b = true

@[simp] theorem lastRises_append (edges : List Bool) (b : Bool) :
    lastRises (edges ++ [b]) = b := by
  simp [lastRises]

/-- One more edge alternates if it is not what the last one was, and a rise when it is the
first. -/
theorem alternate_append {edges : List Bool} {b : Bool} :
    Alternate (edges ++ [b]) ↔ Alternate edges ∧ b ≠ lastRises edges := by
  rcases List.eq_nil_or_concat edges with rfl | ⟨front, last, rfl⟩
  · simp [Alternate, lastRises]
  · have hhead : (front.concat last ++ [b]).head? = (front.concat last).head? := by
      cases front <;> simp
    have hlast : lastRises (front.concat last) = last := by simp
    have hchain : (front.concat last ++ [b]).IsChain (· ≠ ·) ↔
        (front.concat last).IsChain (· ≠ ·) ∧ b ≠ last := by
      simp [eq_comm]
    rw [Alternate, Alternate, hhead, hlast, hchain]
    tauto

namespace EdgeLog

/-- The edges alternate, and the condition is active if and only if the last is a rise. -/
def InStep (l : EdgeLog) : Prop := Alternate l.edges ∧ l.active = lastRises l.edges

/-- What raising and clearing the condition does, where the write fails or not. -/
inductive Step (l : EdgeLog) : EdgeLog → Prop
  | raised (h : l.active = false) :
      Step l { l with edges := l.edges ++ [true], active := true }
  | raisedLate (h : l.active = false) :
      Step l { l with edges := l.edges ++ [true], spared := false }
  | cleared (h : l.active = true) :
      Step l { l with edges := l.edges ++ [false], active := false }
  | clearedLost (h : l.active = true) :
      Step l { l with active := false, spared := false }

/-- A condition that a write spoiled : its edges do not alternate, or it is not active after a
rise. -/
def Off (l : EdgeLog) : Prop := ¬Alternate l.edges ∨ l.active = false ∧ lastRises l.edges = true

/-- It is in step as long as no write spoiled it, and never again after. -/
def Told (l : EdgeLog) : Prop := if l.spared then l.InStep else l.Off

theorem Told.step {l l' : EdgeLog} (h : l.Told) (hs : l.Step l') : l'.Told := by
  cases hs with
  | raised hact =>
    by_cases hsp : l.spared
    · simp_all [Told, InStep, alternate_append]
    · simp_all [Told, Off, alternate_append]
      tauto
  | raisedLate hact =>
    by_cases hsp : l.spared <;> simp_all [Told, InStep, Off, alternate_append]
  | cleared hact =>
    by_cases hsp : l.spared <;> simp_all [Told, InStep, Off, alternate_append]
  | clearedLost hact =>
    by_cases hsp : l.spared <;> simp_all [Told, InStep, Off]

/-- In step if and only if no write spoiled it. -/
theorem Told.inStep_iff {l : EdgeLog} (h : l.Told) : l.InStep ↔ l.spared = true := by
  unfold Told at h
  split at h
  · simp_all
  · next hsp =>
    refine iff_of_false (fun hin => ?_) hsp
    rcases h with h | ⟨hact, hup⟩
    · exact h hin.1
    · rw [hin.2, hup] at hact
      exact absurd hact Bool.noConfusion

theorem told_nil : Told {} := by simp [Told, InStep, Alternate, lastRises]

end EdgeLog

/-! ## The kinds of the rows -/

/-- A kind that is neither that of a condition nor that of its end. -/
def IsMoment (kind : String) : Prop := ∀ c : Condition, kind ≠ c.kind ∧ kind ≠ c.clearedKind

namespace Condition

/-- The edge of the condition that a row of the kind is. -/
def edge (c : Condition) (kind : String) : Option Bool :=
  if kind = c.kind then some true else if kind = c.clearedKind then some false else none

theorem kind_injective : Function.Injective kind := by
  intro c d h
  cases c <;> cases d <;> first | rfl | exact absurd h (by decide)

theorem kind_ne_clearedKind (c d : Condition) : c.kind ≠ d.clearedKind := by
  cases c <;> cases d <;> decide

theorem clearedKind_injective : Function.Injective clearedKind := fun c d h =>
  kind_injective (by simpa [clearedKind] using h)

@[simp] theorem edge_kind (c : Condition) : c.edge c.kind = some true := if_pos rfl

@[simp] theorem edge_clearedKind (c : Condition) : c.edge c.clearedKind = some false := by
  simp [edge, (kind_ne_clearedKind c c).symm]

theorem edge_kind_of_ne {c d : Condition} (h : d ≠ c) : c.edge d.kind = none := by
  simp [edge, kind_injective.ne h, kind_ne_clearedKind]

theorem edge_clearedKind_of_ne {c d : Condition} (h : d ≠ c) : c.edge d.clearedKind = none := by
  simp [edge, clearedKind_injective.ne h, (kind_ne_clearedKind c d).symm]

theorem edge_of_isMoment {kind : String} (h : IsMoment kind) (c : Condition) :
    c.edge kind = none := by
  simp [edge, h c]

end Condition

theorem isMoment_logPruned : IsMoment "log_pruned" := fun c => by cases c <;> decide

theorem isMoment_loggerError : IsMoment "logger_error" := fun c => by cases c <;> decide

theorem isMoment_surveyInValid : IsMoment "survey_in_valid" := fun c => by cases c <;> decide

theorem isMoment_siteVerified : IsMoment "site_verified" := fun c => by cases c <;> decide

theorem isMoment_of_consumer (name : String) : IsMoment ("consumer_failed_" ++ name) := by
  have hfront : ("consumer_failed_" ++ name).toList.take 4 = ['c', 'o', 'n', 's'] := by simp
  refine fun c => ⟨fun h => ?_, fun h => ?_⟩
  all_goals
    rw [h] at hfront
    revert hfront
    cases c <;> decide

/-! ## The edges of the table -/

/-- Whether the add spoils the condition : its fall is lost, or its rise stored by an add that
raises. -/
def spoils (c : Condition) (a : EventsRepo.Event × Outcome) : Bool :=
  (a.2 = .lost && c.edge a.1.kind = some false) || (a.2 = .late && c.edge a.1.kind = some true)

namespace EventsRepo

/-- The edges of the condition among the rows stored. -/
def edges (repo : EventsRepo) (c : Condition) : List Bool :=
  repo.rows.filterMap fun row => c.edge row.kind

/-- No add spoils the condition. -/
def Spares (repo : EventsRepo) (c : Condition) : Prop := ∀ a ∈ repo.adds, spoils c a = false

/-- The outcome of the next add. -/
def next (repo : EventsRepo) : Outcome := repo.pattern repo.adds.length

/-- The table after one more add. -/
def after (repo : EventsRepo) (row : EventsRepo.Event) : EventsRepo :=
  { repo with adds := repo.adds ++ [(row, repo.next)] }

@[simp] theorem adds_after (repo : EventsRepo) (row : EventsRepo.Event) :
    (repo.after row).adds = repo.adds ++ [(row, repo.next)] := rfl

theorem edges_after (repo : EventsRepo) (row : EventsRepo.Event) (c : Condition) :
    (repo.after row).edges c = repo.edges c ++
      if repo.next = .lost then [] else (c.edge row.kind).toList := by
  by_cases h : repo.next = .lost <;>
    cases hedge : c.edge row.kind <;> simp [edges, rows, after, h, hedge]

end EventsRepo

/-! ## One rule -/

namespace AlertEngine

/-- What the engine and its table have of the condition. -/
def edgeLog (e : AlertEngine) (c : Condition) : EdgeLog where
  edges := e.events.edges c
  active := (e.active c).isSome
  spared := e.events.adds.all fun a => !spoils c a

theorem run_emit (level : Level) (kind message : String) (e : AlertEngine) :
    (emit level kind message).run e =
      if e.events.next = .stored then
        .ok ⟨level, kind, message⟩
          { e with
            events := e.events.after ⟨level, kind, message⟩
            published := e.published ++ [⟨level, kind, message⟩] }
      else .error () { e with events := e.events.after ⟨level, kind, message⟩ } := by
  by_cases h : e.events.pattern e.events.adds.length = .stored
  · simp [emit, add, EventsRepo.next, h, EventsRepo.after]
  · simp [emit, add, EventsRepo.next, h, EventsRepo.after]

theorem leftBy_raise (c : Condition) (level : Level) (message : String) (e : AlertEngine)
    (hc : c ∉ e.raising) :
    leftBy (raise c level message) e =
      if (e.active c).isSome then e
      else if e.events.next = .stored then
        { e with
          events := e.events.after ⟨level, c.kind, message⟩
          published := e.published ++ [⟨level, c.kind, message⟩]
          active := Function.update e.active c (some ⟨level, c.kind, message⟩) }
      else { e with events := e.events.after ⟨level, c.kind, message⟩ } := by
  by_cases hact : (e.active c).isSome
  · simp [leftBy, raise, hact]
  · by_cases h : e.events.next = .stored
    · simp [leftBy, raise, hact, hc, run_emit, h, Finset.erase_insert hc]
    · simp [leftBy, raise, hact, hc, run_emit, h, Finset.erase_insert hc]

theorem leftBy_emit (level : Level) (kind message : String) (e : AlertEngine) :
    leftBy (discard (emit level kind message)) e =
      { e with
        events := e.events.after ⟨level, kind, message⟩
        published := e.published ++
          if e.events.next = .stored then [⟨level, kind, message⟩] else [] } := by
  by_cases h : e.events.next = .stored
  · simp [leftBy, run_emit, h]
  · simp [leftBy, run_emit, h]

theorem leftBy_clear (c : Condition) (message : String) (e : AlertEngine) :
    leftBy (clear c message) e =
      if (e.active c).isSome then
        { e with
          events := e.events.after ⟨.info, c.clearedKind, message⟩
          published := e.published ++
            if e.events.next = .stored then [⟨.info, c.clearedKind, message⟩] else []
          active := Function.update e.active c none }
      else e := by
  cases hact : e.active c with
  | none => simp [leftBy, clear, hact]
  | some event =>
    have hrun := leftBy_emit .info c.clearedKind message
      { e with active := Function.update e.active c none }
    simpa [leftBy, clear, hact] using hrun

end AlertEngine

/-! ## What rules are made of -/

/-- The conditions raised once a run of bad samples has lasted. -/
def Condition.sampled : Condition → Bool
  | .fixLost | .jamming | .temperatureHigh | .rtkLost => true
  | _ => false

/-- The messages that are samples of them. -/
def AlertMessage.isSample : AlertMessage → Bool
  | .stateFix _ | .stateHardware _ | .systemStats _ | .stateRtk _ => true
  | _ => false

namespace AlertEngine

/-- The clock, and what the rules of these conditions remember. -/
def timing (e : AlertEngine) : ℚ × Bool × Option ℚ × Option ℚ × Option ℚ × Bool × Option ℚ :=
  (e.now, e.hadThreeD, e.fixBadSince, e.jamSince, e.tempHighSince, e.wasFixed, e.rtkBadSince)

/-- `P` is kept by raising and clearing the other conditions and by an event of another kind, and
does not speak of what their rules remember. -/
structure Aside (P : AlertEngine → Prop) : Prop where
  raise : ∀ {c}, c.sampled = false → ∀ level message, Keeps P (raise c level message)
  clear : ∀ {c}, c.sampled = false → ∀ message, Keeps P (clear c message)
  emit : ∀ level kind message, IsMoment kind → Keeps P (discard (emit level kind message))
  frame : ∀ e e' : AlertEngine, e'.events = e.events → e'.active = e.active →
    e'.raising = e.raising → e'.timing = e.timing → P e → P e'

namespace Aside

variable {P : AlertEngine → Prop} (h : Aside P)

include h

/-- What these rules remember is not spoken of. -/
theorem remember (f : AlertEngine → AlertEngine)
    (hf : ∀ e, (f e).events = e.events ∧ (f e).active = e.active ∧ (f e).raising = e.raising ∧
      (f e).timing = e.timing) :
    Keeps P (modify f : Rule PUnit) :=
  keeps_modify fun e => h.frame e (f e) (hf e).1 (hf e).2.1 (hf e).2.2.1 (hf e).2.2.2

theorem oneShot {kind : String} (hkind : IsMoment kind) (level : Level) (message : String) :
    Keeps P (oneShot kind level message) := by
  refine keeps_bind keeps_get fun e => keeps_ite (keeps_pure _) ?_
  exact keeps_bind (h.remember _ fun _ => ⟨rfl, rfl, rfl, rfl⟩) fun _ => h.emit _ _ _ hkind

theorem onReceiverConnected (source : String) : Keeps P (onReceiverConnected source) := by
  refine keeps_bind (h.remember _ fun _ => ⟨rfl, rfl, rfl, rfl⟩) fun _ => ?_
  refine keeps_bind (h.clear rfl _) fun _ => ?_
  exact keeps_bind (h.remember _ fun _ => ⟨rfl, rfl, rfl, rfl⟩) fun _ => h.clear rfl _

theorem onReceiverError (message : String) : Keeps P (onReceiverError message) := by
  refine keeps_bind keeps_get fun e => keeps_ite ?_ (h.raise rfl _ _)
  exact keeps_bind (h.remember _ fun _ => ⟨rfl, rfl, rfl, rfl⟩) fun _ => h.raise rfl _ _

theorem onReceiverCapabilities : Keeps P onReceiverCapabilities :=
  keeps_bind (h.remember _ fun _ => ⟨rfl, rfl, rfl, rfl⟩) fun _ => h.clear rfl _

theorem onReceiverRecovered [PyUnicode] (source message : Option String) :
    Keeps P (onReceiverRecovered source message) := by
  refine keeps_bind keeps_get fun e => ?_
  cases truthy source with
  | none => exact keeps_pure _
  | some source =>
    cases e.active .receiverError with
    | none => exact keeps_pure _
    | some event =>
      refine keeps_ite (keeps_pure _) (keeps_bind (h.clear rfl _) fun _ => ?_)
      refine keeps_bind keeps_get fun e => ?_
      refine keeps_bind (h.remember _ fun _ => ⟨rfl, rfl, rfl, rfl⟩) fun _ => ?_
      cases (e.receiverErrorsBehind.filter (!namesDevice · source)).getLast? with
      | none => exact keeps_pure _
      | some newest => exact h.raise rfl _ _

theorem onDiskFree (free : ℚ) : Keeps P (onDiskFree free) := by
  have hwarning : ∀ e : AlertEngine, Keeps P (if free < e.minFreeGb * diskWarningFactor then
      AlertEngine.raise .diskWarning .warning s!"disk free {fixedText 1 free} GB"
      else AlertEngine.clear .diskWarning s!"disk free {fixedText 1 free} GB") :=
    fun e => keeps_ite (h.raise rfl _ _) (h.clear rfl _)
  refine keeps_bind keeps_get fun e => keeps_ite ?_ ?_
  · exact keeps_bind (h.raise rfl _ _) fun _ => hwarning e
  · exact keeps_ite (keeps_bind (h.clear rfl _) fun _ => hwarning e) (hwarning e)

theorem onStateSurveyIn (svin : SurveyIn) : Keeps P (onStateSurveyIn svin) := by
  have hset : Keeps P (modify fun e => { e with surveyValid := svin.valid } : Rule PUnit) :=
    h.remember _ fun _ => ⟨rfl, rfl, rfl, rfl⟩
  refine keeps_bind keeps_get fun e => keeps_ite ?_ hset
  exact keeps_bind (h.emit _ _ _ isMoment_surveyInValid) fun _ => hset

theorem onBaseSiteVerified (site : String) : Keeps P (onBaseSiteVerified site) :=
  keeps_bind (h.clear rfl _) fun _ => h.emit _ _ _ isMoment_siteVerified

theorem onNtripClientStatus (status : NtripClientStatus) :
    Keeps P (onNtripClientStatus status) := by
  refine keeps_ite (h.clear rfl _) ?_
  cases truthy status.lastError with
  | none => exact keeps_pure _
  | some error => exact h.raise rfl _ _

theorem onCorrAge (rtk : RtkStatus) : Keeps P (onCorrAge rtk) := by
  unfold AlertEngine.onCorrAge
  cases rtk.corrAgeS with
  | none => exact keeps_pure _
  | some corrAge => exact keeps_ite (h.raise rfl _ _) (keeps_ite (h.clear rfl _) (keeps_pure _))

theorem onInsMode (ins : InsStatus) : Keeps P (onInsMode ins) := by
  refine keeps_bind keeps_get fun e => ?_
  cases insAlignedMode ins.vendor with
  | none => exact keeps_pure _
  | some alignedFrom =>
    cases ins.mode with
    | none => exact keeps_pure _
    | some mode =>
      refine keeps_ite ?_ ?_
      · exact keeps_bind (h.remember _ fun _ => ⟨rfl, rfl, rfl, rfl⟩) fun _ => h.clear rfl _
      · cases e.insUnalignedSince with
        | none => exact h.remember _ fun _ => ⟨rfl, rfl, rfl, rfl⟩
        | some since => exact keeps_ite (h.raise rfl _ _) (keeps_pure _)

theorem onInsGnssFix (ins : InsStatus) : Keeps P (onInsGnssFix ins) := by
  refine keeps_bind keeps_get fun e => ?_
  cases ins.gnssFix with
  | none => exact keeps_pure _
  | some gnssFix =>
    refine keeps_ite ?_ (keeps_ite (keeps_pure _) ?_)
    · exact keeps_bind (h.remember _ fun _ => ⟨rfl, rfl, rfl, rfl⟩) fun _ => h.clear rfl _
    · cases e.insGnssBadSince with
      | none => exact h.remember _ fun _ => ⟨rfl, rfl, rfl, rfl⟩
      | some since => exact keeps_ite (h.raise rfl _ _) (keeps_pure _)

theorem onImu (ins : InsStatus) : Keeps P (onImu ins) :=
  keeps_ite (h.raise rfl _ _) (keeps_ite (h.clear rfl _) (keeps_pure _))

theorem onStateIns (ins : InsStatus) : Keeps P (onStateIns ins) :=
  keeps_bind (h.onInsMode ins) fun _ => keeps_bind (h.onInsGnssFix ins) fun _ => h.onImu ins

theorem onInsConfig (mismatched : List String) : Keeps P (onInsConfig mismatched) :=
  keeps_ite (h.raise rfl _ _) (h.clear rfl _)

/-- What the parts of the rules keep is kept by every rule of another condition. -/
theorem handle [PyUnicode] (message : AlertMessage) (hm : message.isSample = false) :
    Keeps P (handle message) := by
  cases message with
  | receiverDisconnected reason => exact keeps_ite (keeps_pure _) (h.raise rfl _ _)
  | receiverConnected source => exact h.onReceiverConnected source
  | receiverError message => exact h.onReceiverError message
  | receiverCapabilities => exact h.onReceiverCapabilities
  | receiverRecovered source message => exact h.onReceiverRecovered source message
  | rawlogBackpressure queued => exact h.raise rfl _ _
  | rawlogDrained queued => exact h.clear rfl _
  | rawlogPruned name => exact h.oneShot isMoment_logPruned _ _
  | rawlogError message => exact h.oneShot isMoment_loggerError _ _
  | samplerError message => exact h.raise rfl _ _
  | samplerRecovered message => exact h.clear rfl _
  | daemonConsumerFailed name error => exact h.oneShot (isMoment_of_consumer name) _ _
  | stateSurveyIn svin => exact h.onStateSurveyIn svin
  | baseSiteMismatch site => exact h.raise rfl _ _
  | baseSiteVerified site => exact h.onBaseSiteVerified site
  | ntripClientStatus status => exact h.onNtripClientStatus status
  | stateIns ins => exact h.onStateIns ins
  | insConfig mismatched => exact h.onInsConfig mismatched
  | malformed => exact keeps_throw _
  | stateFix | stateHardware | systemStats | stateRtk => cases hm

end Aside

/-- `P` is kept by raising, by clearing and by an event of another kind, and does not speak of
what the rules remember beside. -/
structure Upkeep (P : AlertEngine → Prop) : Prop where
  raise : ∀ c level message, Keeps P (raise c level message)
  clear : ∀ c message, Keeps P (clear c message)
  emit : ∀ level kind message, IsMoment kind → Keeps P (discard (emit level kind message))
  frame : ∀ e e' : AlertEngine, e'.events = e.events → e'.active = e.active →
    e'.raising = e.raising → P e → P e'

namespace Upkeep

variable {P : AlertEngine → Prop} (h : Upkeep P)

include h

theorem aside : Aside P where
  raise _ := h.raise _
  clear _ := h.clear _
  emit := h.emit
  frame e e' hevents hactive hraising _ := h.frame e e' hevents hactive hraising

/-- What a rule remembers is not spoken of. -/
theorem remember (f : AlertEngine → AlertEngine)
    (hf : ∀ e, (f e).events = e.events ∧ (f e).active = e.active ∧ (f e).raising = e.raising) :
    Keeps P (modify f : Rule PUnit) :=
  keeps_modify fun e => h.frame e (f e) (hf e).1 (hf e).2.1 (hf e).2.2

theorem onStateFix (fix : FixInfo) : Keeps P (onStateFix fix) := by
  refine keeps_bind keeps_get fun e => keeps_ite ?_ (keeps_ite (keeps_pure _) ?_)
  · exact keeps_bind (h.remember _ fun _ => ⟨rfl, rfl, rfl⟩) fun _ => h.clear _ _
  · cases e.fixBadSince with
    | none => exact h.remember _ fun _ => ⟨rfl, rfl, rfl⟩
    | some since => exact keeps_ite (h.raise _ _ _) (keeps_pure _)

theorem onJamming (hw : Hardware) : Keeps P (onJamming hw) := by
  refine keeps_bind keeps_get fun e => keeps_ite ?_ ?_
  · cases e.jamSince with
    | none => exact h.remember _ fun _ => ⟨rfl, rfl, rfl⟩
    | some since => exact keeps_ite (h.raise _ _ _) (keeps_pure _)
  · exact keeps_bind (h.remember _ fun _ => ⟨rfl, rfl, rfl⟩) fun _ => h.clear _ _

theorem onStateHardware (hw : Hardware) : Keeps P (onStateHardware hw) := by
  refine keeps_bind (h.onJamming hw) fun _ => ?_
  cases antennaFaultStates hw.antStatus with
  | none => exact h.clear _ _
  | some fault => exact h.raise _ _ _

theorem temperature (tempC : ℚ) : Keeps P (temperature tempC) := by
  refine keeps_bind keeps_get fun e => keeps_ite ?_ ?_
  · cases e.tempHighSince with
    | none => exact h.remember _ fun _ => ⟨rfl, rfl, rfl⟩
    | some since => exact keeps_ite (h.raise _ _ _) (keeps_pure _)
  · exact keeps_bind (h.remember _ fun _ => ⟨rfl, rfl, rfl⟩) fun _ =>
      keeps_ite (h.clear _ _) (keeps_pure _)

theorem onSystemStats (stats : SystemStats) : Keeps P (onSystemStats stats) := by
  refine keeps_bind (h.aside.onDiskFree _) fun _ => ?_
  cases stats.tempC with
  | none => exact keeps_pure _
  | some tempC => exact h.temperature tempC

theorem onCarrSoln (rtk : RtkStatus) : Keeps P (onCarrSoln rtk) := by
  refine keeps_bind keeps_get fun e => keeps_ite ?_ (keeps_ite (keeps_pure _) ?_)
  · exact keeps_bind (h.remember _ fun _ => ⟨rfl, rfl, rfl⟩) fun _ => h.clear _ _
  · cases e.rtkBadSince with
    | none => exact h.remember _ fun _ => ⟨rfl, rfl, rfl⟩
    | some since => exact keeps_ite (h.raise _ _ _) (keeps_pure _)

theorem onStateRtk (rtk : RtkStatus) : Keeps P (onStateRtk rtk) :=
  keeps_bind (h.aside.onCorrAge rtk) fun _ => h.onCarrSoln rtk

/-- What the parts of the rules keep is kept by every rule. -/
theorem handle [PyUnicode] (message : AlertMessage) : Keeps P (handle message) := by
  cases message with
  | stateFix fix => exact h.onStateFix fix
  | stateHardware hw => exact h.onStateHardware hw
  | systemStats stats => exact h.onSystemStats stats
  | stateRtk rtk => exact h.onStateRtk rtk
  | _ => exact h.aside.handle _ rfl

/-- And by every run. -/
theorem consumed [PyUnicode] (hnow : ∀ e now, P e → P { e with now := now })
    (ms : List (ℚ × AlertMessage)) : ∀ e, P e → P (consumed e ms) := by
  induction ms with
  | nil => exact fun e he => he
  | cons m ms ih => exact fun e he => ih _ (h.handle m.2 _ (hnow e m.1 he))

end Upkeep

/-! ## The condition through a run -/

/-- No first event is being written, and the condition is in step as long as no add spoiled it. -/
def Telling (c : Condition) (e : AlertEngine) : Prop := e.raising = ∅ ∧ (e.edgeLog c).Told

variable {c : Condition} {e : AlertEngine}

/-- A row of another kind is no edge of the condition. -/
theorem told_other {e' : AlertEngine} {row : EventsRepo.Event} (hrow : c.edge row.kind = none)
    (hevents : e'.events = e.events.after row) (hactive : e'.active c = e.active c)
    (h : (e.edgeLog c).Told) : (e'.edgeLog c).Told := by
  convert h using 1
  ext1
  · simp [edgeLog, hevents, edges_after, hrow]
  · simp [edgeLog, hactive]
  · simp [edgeLog, hevents, spoils, hrow]

theorem telling_raise (d : Condition) (level : Level) (message : String) :
    Keeps (Telling c) (raise d level message) := by
  rintro e ⟨hr, ht⟩
  rw [leftBy_raise d level message e (by simp [hr])]
  by_cases hact : (e.active d).isSome
  · rw [if_pos hact]
    exact ⟨hr, ht⟩
  rw [if_neg hact]
  rcases eq_or_ne d c with rfl | hne
  · have hoff : (e.edgeLog d).active = false := by simpa [edgeLog] using hact
    cases hnext : e.events.next with
    | stored =>
      refine ⟨hr, ?_⟩
      convert ht.step (.raised hoff) using 1
      ext1 <;> simp [edgeLog, edges_after, hnext, spoils]
    | lost =>
      refine ⟨hr, ?_⟩
      convert ht using 1
      ext1 <;> simp [edgeLog, edges_after, hnext, spoils]
    | late =>
      refine ⟨hr, ?_⟩
      convert ht.step (.raisedLate hoff) using 1
      ext1 <;> simp [edgeLog, edges_after, hnext, spoils]
  · have hrow := Condition.edge_kind_of_ne hne
    split
    · exact ⟨hr, told_other hrow rfl (Function.update_of_ne hne.symm _ _) ht⟩
    · exact ⟨hr, told_other hrow rfl rfl ht⟩

theorem telling_clear (d : Condition) (message : String) :
    Keeps (Telling c) (clear d message) := by
  rintro e ⟨hr, ht⟩
  rw [leftBy_clear]
  by_cases hact : (e.active d).isSome
  · rw [if_pos hact]
    refine ⟨hr, ?_⟩
    rcases eq_or_ne d c with rfl | hne
    · have hon : (e.edgeLog d).active = true := hact
      cases hnext : e.events.next with
      | stored =>
        convert ht.step (.cleared hon) using 1
        ext1 <;> simp [edgeLog, edges_after, hnext, spoils]
      | lost =>
        convert ht.step (.clearedLost hon) using 1
        ext1 <;> simp [edgeLog, edges_after, hnext, spoils]
      | late =>
        convert ht.step (.cleared hon) using 1
        ext1 <;> simp [edgeLog, edges_after, hnext, spoils]
    · exact told_other (Condition.edge_clearedKind_of_ne hne) rfl
        (Function.update_of_ne hne.symm _ _) ht
  · rw [if_neg hact]
    exact ⟨hr, ht⟩

theorem upkeep_telling (c : Condition) : Upkeep (Telling c) where
  raise := telling_raise
  clear := telling_clear
  emit level kind message hkind := by
    rintro e ⟨hr, ht⟩
    rw [leftBy_emit]
    exact ⟨hr, told_other (Condition.edge_of_isMoment hkind c) rfl rfl ht⟩
  frame e e' hevents hactive hraising := by
    rintro ⟨hr, ht⟩
    refine ⟨hraising.trans hr, ?_⟩
    simpa [edgeLog, hevents, hactive] using ht

/-- The adds so far began with these. -/
def Adding (adds : List (EventsRepo.Event × Outcome)) (e : AlertEngine) : Prop :=
  e.raising = ∅ ∧ adds <+: e.events.adds

theorem upkeep_adding (adds : List (EventsRepo.Event × Outcome)) : Upkeep (Adding adds) where
  raise c level message := by
    rintro e ⟨hr, hp⟩
    rw [leftBy_raise c level message e (by simp [hr])]
    split
    · exact ⟨hr, hp⟩
    · split
      · exact ⟨hr, hp.trans (List.prefix_append _ _)⟩
      · exact ⟨hr, hp.trans (List.prefix_append _ _)⟩
  clear c message := by
    rintro e ⟨hr, hp⟩
    rw [leftBy_clear]
    split
    · exact ⟨hr, hp.trans (List.prefix_append _ _)⟩
    · exact ⟨hr, hp⟩
  emit level kind message _ := by
    rintro e ⟨hr, hp⟩
    rw [leftBy_emit]
    exact ⟨hr, hp.trans (List.prefix_append _ _)⟩
  frame e e' hevents _ hraising := by
    rintro ⟨hr, hp⟩
    exact ⟨hraising.trans hr, hevents ▸ hp⟩

/-! ## In step -/

/-- The engine and the table agree on the condition : its edges alternate, a rise first, and it
is active if and only if the last of them is a rise. -/
def InStep (e : AlertEngine) (c : Condition) : Prop :=
  Alternate (e.events.edges c) ∧
    ((e.active c).isSome ↔ (e.events.edges c).getLast? = some true)

/-- A sample that shows the condition, or its end, has it in the table afterwards unless the add
raises : what was not written before is written then. -/
def Retries (e : AlertEngine) (c : Condition) : Prop :=
  e.events.next = .stored → ∀ level message,
    ((leftBy (raise c level message) e).events.edges c).getLast? = some true ∧
      ((leftBy (clear c message) e).events.edges c).getLast? ≠ some true

theorem inStep_iff (h : Telling c e) : e.InStep c ↔ e.events.Spares c := by
  have hlast : lastRises (e.events.edges c) = true ↔ (e.events.edges c).getLast? = some true :=
    decide_eq_true_iff
  have hin : e.InStep c ↔ (e.edgeLog c).InStep :=
    and_congr_right' (by rw [← hlast]; exact Bool.eq_iff_iff.symm)
  rw [hin, h.2.inStep_iff]
  simp [edgeLog, EventsRepo.Spares]

theorem retries_of_inStep (hr : e.raising = ∅) (h : e.InStep c) : e.Retries c := by
  intro hnext level message
  rw [leftBy_raise c level message e (by simp [hr]), leftBy_clear]
  by_cases hact : (e.active c).isSome
  · simp [hact, h.2.1 hact, edges_after, hnext]
  · have hlast := mt h.2.2 hact
    simp [hact, hlast, edges_after, hnext]

/-- A fresh engine over an empty table whose adds go as in `pattern`. -/
def fresh (pattern : ℕ → Outcome) (minFreeGb : ℚ) : AlertEngine where
  events := { pattern }
  minFreeGb

theorem telling_consumed [PyUnicode] (c : Condition) (pattern : ℕ → Outcome) (minFreeGb : ℚ)
    (ms : List (ℚ × AlertMessage)) : Telling c (consumed (fresh pattern minFreeGb) ms) :=
  (upkeep_telling c).consumed (fun _ _ h => h) ms _ ⟨rfl, EdgeLog.told_nil⟩

/-- The adds of a run go on from those of its beginning. -/
theorem adds_prefix [PyUnicode] (pattern : ℕ → Outcome) (minFreeGb : ℚ)
    {taken ms : List (ℚ × AlertMessage)} (h : taken <+: ms) :
    (consumed (fresh pattern minFreeGb) taken).events.adds <+:
      (consumed (fresh pattern minFreeGb) ms).events.adds := by
  obtain ⟨left, rfl⟩ := h
  have hsplit : consumed (fresh pattern minFreeGb) (taken ++ left) =
      consumed (consumed (fresh pattern minFreeGb) taken) left := List.foldl_append
  have hr := (telling_consumed .fixLost pattern minFreeGb taken).1
  rw [hsplit]
  exact ((upkeep_adding _).consumed (fun _ _ h => h) left _ ⟨hr, List.prefix_rfl⟩).2

end AlertEngine

/-- **A condition is in step with its events after every message of a run, and what was not
written is written by the next sample, if and only if no add of the run spoils it** : no add of
its cleared kind is lost, and none of its kind raises after the row is stored. -/
theorem alternate_iff_spared [PyUnicode] (pattern : ℕ → Outcome) (minFreeGb : ℚ)
    (ms : List (ℚ × AlertMessage)) (c : Condition) :
    (∀ taken, taken <+: ms →
      (AlertEngine.consumed (.fresh pattern minFreeGb) taken).InStep c ∧
        (AlertEngine.consumed (.fresh pattern minFreeGb) taken).Retries c) ↔
      (AlertEngine.consumed (.fresh pattern minFreeGb) ms).events.Spares c := by
  have htold := AlertEngine.telling_consumed c pattern minFreeGb
  refine ⟨fun h => (AlertEngine.inStep_iff (htold ms)).1 (h ms List.prefix_rfl).1, ?_⟩
  intro h taken htaken
  have hspared : (AlertEngine.consumed (.fresh pattern minFreeGb) taken).events.Spares c :=
    fun a ha => h a ((AlertEngine.adds_prefix pattern minFreeGb htaken).subset ha)
  have hin := (AlertEngine.inStep_iff (htold taken)).2 hspared
  exact ⟨hin, AlertEngine.retries_of_inStep (htold taken).1 hin⟩

/-- The write that fails : the connection is back, and the clear that says so is lost. -/
def secondLost (i : ℕ) : Outcome := if i = 1 then .lost else .stored

/-- The receiver is gone and comes back, and the add of the clear raises : `active` is empty
while the last row stored is the raise. -/
theorem clear_lost_out_of_step :
    ¬(@AlertEngine.consumed ⟨Char.isAlphanum⟩ (.fresh secondLost 5)
      [(0, .receiverDisconnected "gone"), (1, .receiverConnected "tcp")]).InStep
        .receiverDisconnected := by
  intro h
  exact absurd (h.2.2 (by rfl)) (by decide)

end Mtrtk
